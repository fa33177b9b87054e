import SimpleFiles.Proofs.FileTree.Lookup

/-! Trees that only grow: entries are added and the content of files may change, but no
entry goes. Trees that gain entries keep the content of files, too. -/
namespace SimpleFiles.FileTree

/-- Every entry is still there as it was, except that a file at one of the given locations may
have another content. -/
def Grows (changed : Location → Prop) (t u : FileTree) : Prop :=
  ∀ l n, t.get? l = some n →
    u.get? l = some n ∨ changed l ∧ ∃ old new, n = .file old ∧ u.get? l = some (.file new)

section
variable {changed other : Location → Prop} {t u v : FileTree}

theorem Grows.refl (changed : Location → Prop) (t : FileTree) : Grows changed t t :=
  fun _ _ h => .inl h

theorem Grows.mono (h : Grows changed t u) (wider : ∀ l, changed l → other l) :
    Grows other t u :=
  fun l n hn => (h l n hn).imp_right fun ⟨here, files⟩ => ⟨wider l here, files⟩

theorem Grows.trans (first : Grows changed t u) (second : Grows changed u v) :
    Grows changed t v := by
  intro l n hn
  rcases first l n hn with same | ⟨here, old, new, rfl, found⟩
  · exact second l n same
  · refine .inr ⟨here, old, ?_⟩
    rcases second l _ found with same | ⟨-, -, newer, -, found'⟩
    · exact ⟨new, rfl, same⟩
    · exact ⟨newer, rfl, found'⟩

theorem grows_insert (t : FileTree) (l : Location) (n : Node) (free : t.get? l = none) :
    Grows changed t (t.insert l n) := by
  have named : l ≠ [] := by
    rintro rfl
    cases free
  intro m k hk
  have elsewhere : m ≠ l := by
    rintro rfl
    rw [free] at hk
    cases hk
  rw [get?_insert t l named, if_neg elsewhere]
  exact .inl hk

theorem grows_write (changed : Location → Prop) (t : FileTree) (l : Location) (old new : ByteArray)
    (file : t.get? l = some (.file old)) (here : changed l) :
    Grows changed t (t.insert l (.file new)) := by
  have named : l ≠ [] := by
    rintro rfl
    cases file
  intro m k hk
  rw [get?_insert t l named]
  split
  · rename_i same
    rw [same, file] at hk
    exact .inr ⟨same ▸ here, old, new, (Option.some.inj hk).symm, rfl⟩
  · exact .inl hk

theorem Grows.get?_of_not_file (h : Grows changed t u) (l : Location) (n : Node)
    (hn : t.get? l = some n) (noFile : n.isFile = false) : u.get? l = some n := by
  rcases h l n hn with same | ⟨-, old, -, rfl, -⟩
  · exact same
  · cases noFile

theorem Grows.isDirectory_of (h : Grows changed t u) (l : Location)
    (hl : t.isDirectory l = true) : u.isDirectory l = true :=
  (u.isDirectory_iff l).mpr (h.get?_of_not_file l _ ((t.isDirectory_iff l).mp hl) rfl)

theorem Grows.isFile (h : Grows changed t u) (l : Location) (hl : t.isFile l = true) :
    u.isFile l = true := by
  obtain ⟨content, hn⟩ := (t.isFile_iff l).mp hl
  rcases h l _ hn with same | ⟨-, -, new, -, found⟩
  · exact (u.isFile_iff l).mpr ⟨content, same⟩
  · exact (u.isFile_iff l).mpr ⟨new, found⟩

theorem Grows.contains (h : Grows changed t u) (l : Location) (hl : t.contains l = true) :
    u.contains l = true := by
  obtain ⟨n, hn⟩ := (t.contains_iff l).mp hl
  rcases h l n hn with same | ⟨-, -, new, -, found⟩
  · exact (u.contains_iff l).mpr ⟨n, same⟩
  · exact (u.contains_iff l).mpr ⟨_, found⟩

end

/-- Everything is still there as it was, and what is new is of a certain kind. -/
structure Gains (new : Location → Node → Prop) (t u : FileTree) : Prop where
  kept : ∀ l n, t.get? l = some n → u.get? l = some n
  gained : ∀ l n, t.get? l = none → u.get? l = some n → new l n

namespace Gains

variable {new other : Location → Node → Prop} {t u v : FileTree}

theorem refl (new : Location → Node → Prop) (t : FileTree) : Gains new t t := by
  refine ⟨fun _ _ h => h, ?_⟩
  intro l n missing found
  rw [missing] at found
  cases found

theorem mono (h : Gains new t u) (wider : ∀ l n, new l n → other l n) : Gains other t u :=
  ⟨h.kept, fun l n missing found => wider l n (h.gained l n missing found)⟩

theorem trans (first : Gains new t u) (second : Gains new u v) : Gains new t v := by
  refine ⟨fun l n hn => second.kept l n (first.kept l n hn), ?_⟩
  intro l n missing found
  cases between : u.get? l with
  | none => exact second.gained l n between found
  | some m =>
    have same : m = n := Option.some.inj ((second.kept l m between).symm.trans found)
    exact same ▸ first.gained l m missing between

theorem grows (changed : Location → Prop) (h : Gains new t u) : Grows changed t u :=
  fun l n hn => .inl (h.kept l n hn)

theorem missing (h : Gains new t u) (l : Location) (hl : u.get? l = none) : t.get? l = none := by
  cases found : t.get? l with
  | none => rfl
  | some n =>
    rw [h.kept l n found] at hl
    cases hl

theorem of_get? (l : Location) (n : Node) (free : t.get? l = none)
    (h : ∀ m, u.get? m = if m = l then some n else t.get? m) (isNew : new l n) :
    Gains new t u := by
  refine ⟨?_, ?_⟩
  · intro m k hk
    have elsewhere : m ≠ l := by
      rintro rfl
      rw [free] at hk
      cases hk
    rw [h, if_neg elsewhere, hk]
  · intro m k missing found
    rw [h] at found
    split at found
    · rename_i here
      cases found
      exact here ▸ isNew
    · rw [missing] at found
      cases found

end Gains
end SimpleFiles.FileTree
