import Mathlib.Data.List.Basic
import Rsc.Command.FileSystem
import Rsc.Proofs.Traversal

/-!
# Reading what was written

Writing to a path fails before anything is changed, and fails or not whatever is written. Where it
does not fail, the file at the end of the path holds what was written and nothing else in the file
system is different. Directories that were there stay there, so the path leads to the same place
afterwards.
-/

namespace Rsc.FileSystem

/-! ## Places -/

/-- A place on the way to the working directory or to an entry. -/
def OnTheWay (fs : FileSystem) (place : List Text) : Prop :=
  place <+: fs.workingDirectory ∨ ∃ entry ∈ fs.entries, place <+: entry.1

instance (fs : FileSystem) (place : List Text) : Decidable (fs.OnTheWay place) :=
  inferInstanceAs (Decidable (_ ∨ ∃ entry ∈ fs.entries, place <+: entry.1))

/-- Places above one on the way are on the way. -/
theorem OnTheWay.above {fs : FileSystem} {place higher : List Text} (h : fs.OnTheWay place)
    (hhigher : higher <+: place) : fs.OnTheWay higher := by
  rcases h with hworking | ⟨entry, hmem, hentry⟩
  · exact Or.inl (hhigher.trans hworking)
  · exact Or.inr ⟨entry, hmem, hhigher.trans hentry⟩

/-- A place is what its entry says; without an entry it is a directory if it is on the way. -/
theorem node?_eq (fs : FileSystem) (place : List Text) :
    fs.node? place =
      (fs.entries.lookup place).or (if fs.OnTheWay place then some .directory else none) := by
  have hway : (place.isPrefixOf fs.workingDirectory || fs.entries.any fun entry =>
      place.isPrefixOf entry.1) = true ↔ fs.OnTheWay place := by
    simp [OnTheWay]
  simp only [node?, hway]
  cases fs.entries.lookup place <;> rfl

/-- Every directory is on the way, also one that is an entry. -/
theorem onTheWay_of_directory {fs : FileSystem} {place : List Text}
    (h : fs.node? place = some .directory) : fs.OnTheWay place := by
  rw [node?_eq] at h
  cases hlookup : fs.entries.lookup place with
  | some node =>
      rcases List.lookup_eq_some_iff.mp hlookup with ⟨before, after, hentries, _⟩
      exact Or.inr ⟨(place, node), by simp [hentries], List.prefix_rfl⟩
  | none =>
      by_contra hway
      simp [hlookup, hway] at h

/-! ## Following a path -/

/-- Entering a component stays, leaves, or goes to a directory below. -/
theorem enter_eq_ok_iff {fs : FileSystem} {place next : List Text} {name : Text} :
    fs.enter place name = .ok next ↔
      if name = Path.here then next = place
      else if name = Path.parent then next = place.dropLast
      else (Utf8.encode name).length ≤ maxNameBytes ∧ next = place ++ [name] ∧
        fs.node? (place ++ [name]) = some .directory := by
  simp only [enter]
  split
  next => simp [eq_comm]
  next =>
    split
    next => simp [eq_comm]
    next =>
      split
      next hlong => simp [Nat.not_le.mpr hlong]
      next hshort =>
        split
        next hnode => simp [hnode]
        next hnode => simp [hnode]
        next hnode => simp [hnode, Nat.not_lt.mp hshort, eq_comm]

/-- Entering a component does not leave the way. -/
theorem OnTheWay.enter {fs : FileSystem} {place next : List Text} {name : Text}
    (hplace : fs.OnTheWay place) (h : fs.enter place name = .ok next) : fs.OnTheWay next := by
  rw [enter_eq_ok_iff] at h
  split at h
  next => exact h ▸ hplace
  next =>
    split at h
    next => exact h ▸ hplace.above (List.dropLast_prefix place)
    next =>
      rcases h with ⟨_, rfl, hnode⟩
      exact onTheWay_of_directory hnode

/-- Entering components one after the other does not leave the way. -/
theorem OnTheWay.foldlM_enter {fs : FileSystem} {names : List Text} {place last : List Text}
    (hplace : fs.OnTheWay place) (h : names.foldlM fs.enter place = .ok last) :
    fs.OnTheWay last := by
  induction names generalizing place with
  | nil => exact Except.ok.inj h ▸ hplace
  | cons name names ih =>
      rw [List.foldlM_cons, bind_eq_ok_iff] at h
      rcases h with ⟨next, hnext, hrest⟩
      exact ih (hplace.enter hnext) hrest

/-- A file system that has all directories of another, and starts paths from the same one. -/
structure Extends (after before : FileSystem) : Prop where
  workingDirectory : after.workingDirectory = before.workingDirectory
  directories : ∀ place, before.node? place = some .directory →
    after.node? place = some .directory

/-- Components that could be entered still can if no directory is missing. -/
theorem Extends.foldlM_enter {after before : FileSystem} (hextends : after.Extends before)
    {names : List Text} {place last : List Text}
    (h : names.foldlM before.enter place = .ok last) :
    names.foldlM after.enter place = .ok last := by
  induction names generalizing place with
  | nil => exact h
  | cons name names ih =>
      rw [List.foldlM_cons, bind_eq_ok_iff] at h ⊢
      rcases h with ⟨next, hnext, hrest⟩
      refine ⟨next, ?_, ih hrest⟩
      rw [enter_eq_ok_iff] at hnext ⊢
      split
      next hhere => rwa [if_pos hhere] at hnext
      next hhere =>
        split
        next hparent => rwa [if_neg hhere, if_pos hparent] at hnext
        next hparent =>
          rw [if_neg hhere, if_neg hparent] at hnext
          exact ⟨hnext.1, hnext.2.1, hextends.directories _ hnext.2.2⟩

/-- Where a path starts. -/
def start (fs : FileSystem) (path : Text) : List Text :=
  if path.head? = some '/' then [] else fs.workingDirectory

theorem onTheWay_start (fs : FileSystem) (path : Text) : fs.OnTheWay (fs.start path) := by
  unfold start
  split
  next => exact Or.inl List.nil_prefix
  next => exact Or.inl List.prefix_rfl

/-- Refuses a path that cannot name anything. -/
def checkPath (path : Text) : Except FileFault Unit :=
  if path.contains (Char.ofNat 0) then .error .embeddedNul
  else if path.isEmpty then .error .notFound
  else if pathLimit ≤ (Utf8.encode path).length then .error .nameTooLong
  else .ok ()

/-- What the last component of a path leads to from the directory before it. -/
def arrive (path : Text) (place : List Text) : Target :=
  match (Path.components path).getLast? with
  | none => .directory
  | some name =>
    if name = Path.here ∨ name = Path.parent then .directory
    else .entry place name (path.getLast? = some '/')

/-- Following a path is to check it, to enter all components but the last, and to arrive. -/
theorem follow_eq (fs : FileSystem) (path : Text) :
    fs.follow path = do
      checkPath path
      let place ← (Path.components path).dropLast.foldlM fs.enter (fs.start path)
      return arrive path place := by
  simp only [follow, checkPath, start, arrive]
  split
  next => rfl
  next =>
    split
    next => rfl
    next =>
      split
      next => rfl
      next =>
        congr 1
        funext place
        cases (Path.components path).getLast? with
        | none => rfl
        | some name =>
            dsimp only
            split <;> rfl

/-- A path leads somewhere if it passes the check and its components can be entered. -/
theorem follow_eq_ok_iff {fs : FileSystem} {path : Text} {target : Target} :
    fs.follow path = .ok target ↔ checkPath path = .ok () ∧
      ∃ place, (Path.components path).dropLast.foldlM fs.enter (fs.start path) = .ok place ∧
        arrive path place = target := by
  rw [follow_eq, bind_eq_ok_iff]
  constructor
  · rintro ⟨_, hcheck, hrest⟩
    rcases bind_eq_ok_iff.mp hrest with ⟨place, hplace, htarget⟩
    exact ⟨hcheck, place, hplace, Except.ok.inj htarget⟩
  · rintro ⟨hcheck, place, hplace, rfl⟩
    exact ⟨(), hcheck, bind_eq_ok_iff.mpr ⟨place, hplace, rfl⟩⟩

/-- The directory that a path ends in is on the way. -/
theorem onTheWay_of_follow {fs : FileSystem} {path name : Text} {place : List Text} {slash : Bool}
    (h : fs.follow path = .ok (.entry place name slash)) : fs.OnTheWay place := by
  rcases follow_eq_ok_iff.mp h with ⟨_, reached, hreached, harrive⟩
  have hsame : reached = place := by
    simp only [arrive] at harrive
    split at harrive
    next => cases harrive
    next =>
      split at harrive
      next => cases harrive
      next => exact (Target.entry.inj harrive).1
  rw [← hsame]
  exact (onTheWay_start fs path).foldlM_enter hreached

/-- A path leads to the same place in a file system that has all the directories. -/
theorem Extends.follow {after before : FileSystem} (hextends : after.Extends before) {path : Text}
    {target : Target} (h : before.follow path = .ok target) : after.follow path = .ok target := by
  rw [follow_eq_ok_iff] at h ⊢
  rcases h with ⟨hcheck, place, hplace, htarget⟩
  have hstart : after.start path = before.start path := by
    rw [start, hextends.workingDirectory, start]
  exact ⟨hcheck, place, hstart ▸ hextends.foldlM_enter hplace, htarget⟩

/-! ## Putting a file -/

theorem lookup_filter_ne {other place : List Text} (h : other ≠ place)
    (entries : List (List Text × Node)) :
    (entries.filter (·.1 != place)).lookup other = entries.lookup other := by
  induction entries with
  | nil => rfl
  | cons entry entries ih =>
      rcases entry with ⟨key, node⟩
      by_cases hkey : key = place
      · subst hkey
        simp [List.lookup_cons, ih, beq_eq_false_iff_ne.mpr h]
      · simp [List.lookup_cons, ih, hkey]

/-- The new file is found at its place, and every other entry as before. -/
theorem lookup_put (fs : FileSystem) (place other : List Text) (contents : Bytes) :
    (fs.put place contents).entries.lookup other =
      if other = place then some (.file contents) else fs.entries.lookup other := by
  simp only [put, List.lookup_append]
  split
  next hsame =>
    subst hsame
    have hnone : (fs.entries.filter (·.1 != other)).lookup other = none := by
      rw [List.lookup_eq_none_iff]
      intro entry hentry
      have hne : entry.1 ≠ other := by simpa using (List.mem_filter.mp hentry).2
      simpa using hne.symm
    simp [hnone]
  next hne => simp [lookup_filter_ne hne, List.lookup_cons, beq_eq_false_iff_ne.mpr hne]

/-- A new file in a directory on the way keeps every other place on the way or off it. -/
theorem onTheWay_put_iff {fs : FileSystem} {place other : List Text} {name : Text}
    (hplace : fs.OnTheWay place) (hother : other ≠ place ++ [name]) (contents : Bytes) :
    (fs.put (place ++ [name]) contents).OnTheWay other ↔ fs.OnTheWay other := by
  constructor
  · rintro (hworking | ⟨entry, hmem, hentry⟩)
    · exact Or.inl hworking
    · rcases List.mem_append.mp hmem with hkept | hnew
      · exact Or.inr ⟨entry, (List.mem_filter.mp hkept).1, hentry⟩
      · rw [List.mem_singleton] at hnew
        subst hnew
        rcases List.prefix_concat_iff.mp hentry with hsame | hhigher
        · exact absurd hsame hother
        · exact hplace.above hhigher
  · rintro (hworking | ⟨entry, hmem, hentry⟩)
    · exact Or.inl hworking
    · by_cases hkey : entry.1 = place ++ [name]
      · rw [hkey] at hentry
        exact Or.inr ⟨_, List.mem_append_right _ (List.mem_singleton_self _), hentry⟩
      · refine Or.inr ⟨entry, List.mem_append_left _ (List.mem_filter.mpr ⟨hmem, ?_⟩), hentry⟩
        simpa using hkey

/-- A file put into a directory is there, and everything else is as it was. -/
theorem node?_put {fs : FileSystem} {place : List Text} (hplace : fs.OnTheWay place) (name : Text)
    (contents : Bytes) (other : List Text) :
    (fs.put (place ++ [name]) contents).node? other =
      if other = place ++ [name] then some (.file contents) else fs.node? other := by
  rw [node?_eq, lookup_put]
  split
  next => rfl
  next hother => simp only [onTheWay_put_iff hplace hother, node?_eq]

/-! ## Opening and writing -/

/-- Opens a path for writing: the place where a file stands or is made. -/
def locate (fs : FileSystem) (path : Text) : Except FileFault (List Text) := do
  match ← fs.follow path with
  | .directory => .error .isDirectory
  | .entry place name slash =>
    if slash then .error .isDirectory
    if maxNameBytes < (Utf8.encode name).length then .error .nameTooLong
    match fs.node? (place ++ [name]) with
    | some .directory => .error .isDirectory
    | _ => return place ++ [name]

/-- Writing is opening and then putting the file, so that only opening can fail. -/
theorem write_eq_map_locate (fs : FileSystem) (path : Text) (contents : Bytes) :
    fs.write path contents = (fs.locate path).map fun place => fs.put place contents := by
  simp only [write, locate]
  cases fs.follow path with
  | error fault => rfl
  | ok target =>
      cases target with
      | directory => rfl
      | entry place name slash =>
          simp only [bind, Except.bind]
          split
          next => rfl
          next =>
            split
            next => rfl
            next =>
              cases fs.node? (place ++ [name]) with
              | none => rfl
              | some node => cases node <;> rfl

/-- A path that opens leads to a short enough name in a directory, where no directory stands. -/
theorem locate_eq_ok {fs : FileSystem} {path : Text} {place : List Text}
    (h : fs.locate path = .ok place) :
    ∃ directory name, fs.follow path = .ok (.entry directory name false) ∧
      (Utf8.encode name).length ≤ maxNameBytes ∧ place = directory ++ [name] ∧
      fs.node? place ≠ some .directory := by
  rcases bind_eq_ok_iff.mp h with ⟨target, hfollow, htarget⟩
  cases target with
  | directory => cases htarget
  | entry directory name slash =>
      simp only at htarget
      split at htarget
      next => cases htarget
      next hslash =>
        split at htarget
        next => cases htarget
        next hshort =>
          split at htarget
          next => cases htarget
          next hnode =>
            rw [Bool.not_eq_true] at hslash
            subst hslash
            obtain rfl := Except.ok.inj htarget
            exact ⟨directory, name, hfollow, Nat.not_lt.mp hshort, rfl, hnode⟩

/-- What is written is there, and everything else is as it was. -/
theorem node?_put_locate {fs : FileSystem} {path : Text} {place : List Text}
    (h : fs.locate path = .ok place) (contents : Bytes) (other : List Text) :
    (fs.put place contents).node? other =
      if other = place then some (.file contents) else fs.node? other := by
  rcases locate_eq_ok h with ⟨directory, name, hfollow, _, rfl, _⟩
  exact node?_put (onTheWay_of_follow hfollow) name contents other

/-- Writing where a path opens keeps all directories. -/
theorem extends_put_locate {fs : FileSystem} {path : Text} {place : List Text}
    (h : fs.locate path = .ok place) (contents : Bytes) : (fs.put place contents).Extends fs where
  workingDirectory := rfl
  directories := by
    intro other hother
    rcases locate_eq_ok h with ⟨_, _, _, _, _, hnode⟩
    rw [node?_put_locate h, if_neg ?_, hother]
    rintro rfl
    exact hnode hother

/-- What is written to a path is read from it. -/
theorem read_put_locate {fs : FileSystem} {path : Text} {place : List Text}
    (h : fs.locate path = .ok place) (contents : Bytes) :
    (fs.put place contents).read path = .ok contents := by
  rcases locate_eq_ok h with ⟨directory, name, hfollow, hshort, rfl, _⟩
  have hthere := node?_put_locate h contents (directory ++ [name])
  rw [if_pos rfl] at hthere
  rw [read, bind_eq_ok_iff]
  refine ⟨_, (extends_put_locate h contents).follow hfollow, ?_⟩
  simp [Nat.not_lt.mpr hshort, hthere]

end Rsc.FileSystem
