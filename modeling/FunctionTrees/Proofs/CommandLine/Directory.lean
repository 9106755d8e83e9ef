import FunctionTrees.CommandLine.Directory
import FunctionTrees.Proofs.Outcome
import Mathlib.Data.List.Infix

/-!
# What writing a file changes

* `locate directory path` : the location that a path leads to; `read_eq`;
* `Writable directory location`, `writable_of_target` : where a file can be written, the directory that it is in is there;
* `file?_put`, `isDirectory_put` : a written file is the only thing that changes;
* `follow_put_eq_ok_iff`, `locate_put_eq_ok_iff`, `target_put` : so all paths lead where they led;
* `read_put_eq_ok_iff`, `read_put_congr` : a file at another location is read as before, whatever was written;
* `put_put`, `append_put` : of a file that is written twice the last content counts.
-/

set_option autoImplicit false

namespace FunctionTrees.CommandLine.Directory

open Outcome

variable {directory : Directory} {location other : Location} {path : String}

/-! ## Where paths lead -/

def locate (directory : Directory) (path : String) : Except FileError Location := do
  checkPath path
  directory.follow (split path).1 (split path).2

def contentAt (directory : Directory) (location : Location) : Except FileError ByteArray :=
  if directory.isDirectory location then .error .isDirectory
  else
    match directory.file? location with
    | some content => .ok content
    | none => .error .notFound

theorem read_eq (directory : Directory) (path : String) :
    directory.read path = directory.locate path >>= directory.contentAt := by
  unfold read locate
  cases checkPath path with
  | error error => rfl
  | ok passed => rfl

theorem isDirectory_iff : directory.isDirectory location = true ↔ (∀ name ∈ location, name = "..") ∨
    ∃ entry ∈ directory.files, location <+: entry.1 ∧ location.length < entry.1.length := by
  simp [isDirectory, List.isPrefixOf_iff_prefix]

/-- What leads to a directory is one. -/
theorem isDirectory_of_isPrefix (h : directory.isDirectory location = true) (hwithin : other <+: location) :
    directory.isDirectory other = true := by
  rw [isDirectory_iff] at h ⊢
  rcases h with hout | ⟨entry, hentry, hle, hlt⟩
  · exact .inl fun name hmem => hout name (hwithin.subset hmem)
  · exact .inr ⟨entry, hentry, hwithin.trans hle, Nat.lt_of_le_of_lt hwithin.length_le hlt⟩

/-- Names lead to a directory, to something in a directory, or nowhere else than to where they start. -/
theorem isDirectory_dropLast_of_follow {start : Location} {names : List String}
    (h : directory.follow start names = .ok location) (hfile : directory.isDirectory location = false) :
    directory.isDirectory location.dropLast = true ∨ location = start := by
  induction names generalizing start with
  | nil =>
    cases h
    exact .inr rfl
  | cons name names ih =>
    unfold follow at h
    split_ifs at h with hstart hlong hother
    rcases ih h with hin | rfl
    · exact .inl hin
    · -- the last step does not stay in the directory or leave it, so it goes to something in it
      unfold step at hfile ⊢
      split_ifs at hfile ⊢ with hstay hleave
      · exact .inr rfl
      · rw [isDirectory_of_isPrefix hstart (List.dropLast_prefix start)] at hfile
        cases hfile
      · rw [List.dropLast_concat]
        exact .inl hstart

/-- A file can be written at the location. -/
structure Writable (directory : Directory) (location : Location) : Prop where
  file : directory.isDirectory location = false
  parent : directory.isDirectory location.dropLast = true

/-- A path starts in a directory. -/
theorem isDirectory_split (path : String) : directory.isDirectory (split path).1 = true := by
  rw [isDirectory_iff]
  refine .inl fun name hmem => ?_
  unfold split at hmem
  dsimp only at hmem
  split_ifs at hmem
  · exact List.mem_singleton.1 hmem
  · cases hmem

/-- A file can be written where the names of a path lead, unless that is a directory. -/
theorem target_eq_ok_iff : directory.target path = .ok location ↔ checkPath path = .ok () ∧
    let names := (split path).2
    let withoutSlashes := (names.reverse.dropWhile (· = "")).reverse
    names.length ≤ withoutSlashes.length ∧ directory.follow (split path).1 withoutSlashes = .ok location ∧
      directory.isDirectory location = false := by
  unfold target
  cases checkPath path with
  | error error => simp
  | ok passed =>
    rw [ok_bind]
    dsimp only
    generalize ((split path).2.reverse.dropWhile _).reverse = withoutSlashes
    rw [bind_eq_ok_iff]
    constructor
    · rintro ⟨found, hfollow, h⟩
      split_ifs at h with hrefused
      · cases h
      · cases h
        rw [not_or, Nat.not_lt, Bool.not_eq_true] at hrefused
        rw [if_neg (Nat.not_lt.2 hrefused.1)] at hfollow
        exact ⟨rfl, hrefused.1, hfollow, hrefused.2⟩
    · rintro ⟨-, hle, hfollow, hfile⟩
      refine ⟨location, ?_, ?_⟩
      · rwa [if_neg (Nat.not_lt.2 hle)]
      · rw [if_neg (by simp [hle, hfile])]
        rfl

theorem writable_of_target (h : directory.target path = .ok location) : directory.Writable location := by
  obtain ⟨-, -, hfollow, hfile⟩ := target_eq_ok_iff.1 h
  refine ⟨hfile, (isDirectory_dropLast_of_follow hfollow hfile).resolve_right ?_⟩
  rintro rfl
  rw [isDirectory_split] at hfile
  cases hfile

/-! ## One file written -/

section Put

variable (content : ByteArray)

theorem put_of_isSome (h : (directory.file? location).isSome = true) : directory.put location content =
    ⟨directory.files.map fun entry => (entry.1, if entry.1 = location then content else entry.2)⟩ :=
  if_pos h

theorem put_of_eq_none (h : directory.file? location = none) :
    directory.put location content = ⟨directory.files ++ [(location, content)]⟩ :=
  if_neg (by simp [h])

theorem ne_of_file?_eq_none (h : directory.file? location = none) : ∀ entry ∈ directory.files, entry.1 ≠ location := by
  unfold file? at h
  rw [Option.map_eq_none_iff, List.find?_eq_none] at h
  exact fun entry hmem => by simpa using h entry hmem

theorem file?_put (other : Location) : (directory.put location content).file? other =
    if other = location then some content else directory.file? other := by
  cases hfile : directory.file? location with
  | some old =>
    rw [put_of_isSome content (by simp [hfile])]
    unfold file? at hfile ⊢
    rw [List.find?_map, Option.map_map]
    show (directory.files.find? fun entry => decide (entry.1 = other)).map _ = _
    cases hfind : directory.files.find? fun entry => decide (entry.1 = other) with
    | some entry =>
      have hother : entry.1 = other := by simpa using List.find?_some hfind
      subst hother
      show some (if entry.1 = location then content else entry.2) = if entry.1 = location then some content else some entry.2
      split_ifs <;> rfl
    | none =>
      have hother : other ≠ location := by
        rintro rfl
        rw [hfind] at hfile
        cases hfile
      rw [if_neg hother]
      rfl
  | none =>
    have hnew := ne_of_file?_eq_none hfile
    rw [put_of_eq_none content hfile]
    unfold file?
    rw [List.find?_append]
    split_ifs with hother
    · subst hother
      rw [List.find?_eq_none.2 fun entry hmem => by simpa using hnew entry hmem]
      simp
    · simp [Ne.symm hother]

/-- A file that is written makes nothing a directory that was none. -/
theorem isDirectory_put (h : directory.Writable location) (other : Location) :
    (directory.put location content).isDirectory other = directory.isDirectory other := by
  cases hfile : directory.file? location with
  | some old =>
    rw [put_of_isSome content (by simp [hfile])]
    simp [isDirectory, List.any_map, Function.comp_def]
  | none =>
    rw [put_of_eq_none content hfile]
    apply Bool.eq_iff_iff.2
    simp only [isDirectory_iff, List.mem_append, List.mem_singleton, or_and_right, exists_or, exists_eq_left]
    constructor
    · rintro (hout | hold | ⟨hle, hlt⟩)
      · exact .inl hout
      · exact .inr hold
      · -- on the way to the new file there are only directories that are there
        have hparent : other <+: location.dropLast := by
          refine List.prefix_of_prefix_length_le hle (List.dropLast_prefix location) ?_
          rw [List.length_dropLast]
          omega
        exact isDirectory_iff.1 (isDirectory_of_isPrefix h.parent hparent)
    · rintro (hout | hold)
      · exact .inl hout
      · exact .inr (.inl hold)

/-! ## Paths once a file is written -/

theorem follow_put_eq_ok_iff (h : directory.Writable location) {start : Location} {names : List String} :
    (directory.put location content).follow start names = .ok other ↔ directory.follow start names = .ok other := by
  induction names generalizing start with
  | nil => exact Iff.rfl
  | cons name names ih =>
    unfold follow
    rw [isDirectory_put content h]
    split_ifs <;> simp [ih]

theorem locate_put_eq_ok_iff (h : directory.Writable location) :
    (directory.put location content).locate path = .ok other ↔ directory.locate path = .ok other := by
  unfold locate
  simp only [bind_eq_ok_iff, follow_put_eq_ok_iff content h]

/-- A file that can be written can be written again. -/
theorem target_put (h : directory.target path = .ok location) :
    (directory.put location content).target path = .ok location := by
  have hwritable := writable_of_target h
  rw [target_eq_ok_iff] at h ⊢
  obtain ⟨hpath, hslash, hfollow, hfile⟩ := h
  refine ⟨hpath, hslash, (follow_put_eq_ok_iff content hwritable).2 hfollow, ?_⟩
  rwa [isDirectory_put content hwritable]

theorem contentAt_put (h : directory.Writable location) (hother : other ≠ location) :
    (directory.put location content).contentAt other = directory.contentAt other := by
  unfold contentAt
  rw [isDirectory_put content h, file?_put, if_neg hother]

/-- A file at another location is read as before. -/
theorem read_put_eq_ok_iff (h : directory.Writable location) (hpath : directory.locate path ≠ .ok location)
    {found : ByteArray} :
    (directory.put location content).read path = .ok found ↔ directory.read path = .ok found := by
  simp only [read_eq, bind_eq_ok_iff, locate_put_eq_ok_iff content h]
  refine exists_congr fun other => and_congr_right fun hother => ?_
  rw [contentAt_put content h (fun heq => hpath (heq ▸ hother))]

/-- What is written makes no difference to where names lead, or to why they lead nowhere. -/
theorem follow_put_congr (content' : ByteArray) (h : directory.Writable location) (start : Location)
    (names : List String) :
    (directory.put location content).follow start names = (directory.put location content').follow start names := by
  induction names generalizing start with
  | nil => rfl
  | cons name names ih =>
    have hfile : ((directory.put location content).file? start).isSome =
        ((directory.put location content').file? start).isSome := by
      rw [file?_put, file?_put]
      split_ifs <;> rfl
    unfold follow
    rw [isDirectory_put content h, isDirectory_put content' h, hfile, ih]

/-- Nor does it to what is read at another location, or to why nothing is. -/
theorem read_put_congr (content' : ByteArray) (h : directory.Writable location)
    (hpath : directory.locate path ≠ .ok location) :
    (directory.put location content).read path = (directory.put location content').read path := by
  have hlocate : (directory.put location content).locate path = (directory.put location content').locate path := by
    unfold locate
    simp only [follow_put_congr content content' h]
  rw [read_eq, read_eq, ← hlocate]
  cases hother : (directory.put location content).locate path with
  | error error => rfl
  | ok other =>
    have hne : other ≠ location := by
      rintro rfl
      exact hpath ((locate_put_eq_ok_iff content h).1 hother)
    rw [ok_bind, ok_bind, contentAt_put content h hne, contentAt_put content' h hne]

/-- Of a file that is written twice the last content counts. -/
theorem put_put (content' : ByteArray) :
    (directory.put location content).put location content' = directory.put location content' := by
  rw [put_of_isSome content' (by rw [file?_put, if_pos rfl]; rfl)]
  cases hfile : directory.file? location with
  | some old =>
    rw [put_of_isSome content (by simp [hfile]), put_of_isSome content' (by simp [hfile])]
    simp only [List.map_map, mk.injEq]
    apply List.map_congr_left
    intro entry _
    simp only [Function.comp_apply]
    split_ifs <;> rfl
  | none =>
    rw [put_of_eq_none content hfile, put_of_eq_none content' hfile]
    simp only [List.map_append, List.map_singleton, if_true, mk.injEq, List.append_cancel_right_eq]
    refine Eq.trans (List.map_congr_left (g := id) fun entry hmem => ?_) (List.map_id _)
    rw [if_neg (ne_of_file?_eq_none hfile entry hmem)]
    rfl

theorem append_put (h : directory.target path = .ok location) (text : String) :
    (directory.put location content).append path text.toUTF8 = .ok (directory.put location (content ++ text.toUTF8)) := by
  unfold append
  rw [target_put content h, ok_bind, put_put, file?_put, if_pos rfl]
  rfl

end Put

end FunctionTrees.CommandLine.Directory
