import SimpleFiles.Execution.Group
import SimpleFiles.Proofs.FileTree.Entries
import SimpleFiles.Proofs.Path.Components

/-! Where a group puts an entry. What comes after the base in the path of the entry comes after the
output in that of its destination, so that entries keep their names and stay apart, and the way back
is the same with the two directories swapped. What is not below the base goes right below the
output, by its name alone. -/
namespace SimpleFiles

theorem FileSystem.liesUnder_of_walk (fs : FileSystem) (root entry : Path)
    (named : ∀ e ∈ fs.tree.entries, ∀ s ∈ e.1, IsEntryName s) (found : entry ∈ fs.walk root) :
    ∃ names, entry.LiesUnder root names := by
  unfold walk at found
  split at found
  · rename_i l _
    obtain ⟨⟨names, n⟩, below, rfl⟩ := List.mem_map.mp found
    obtain ⟨filled, listed⟩ := (fs.tree.mem_under_iff l names n).mp below
    exact ⟨names, root.liesUnder_below names filled fun s hs =>
      named _ listed s (List.mem_append_right _ hs)⟩
  · cases found

namespace Group

variable {entry base : Path} (output : Path)

theorem destination_eq_join (rest : List Path.Component) (filled : rest ≠ [])
    (split : entry.components = base.components ++ rest) :
    ∃ relative : Path, relative.components = rest ∧
      destination entry base output = output.join relative := by
  obtain ⟨relative, found, after⟩ := entry.exists_relativeTo? base rest split
  have visible : relative.text ≠ "" := by
    rw [Ne, ← relative.components_eq_nil_iff, after]
    exact filled
  refine ⟨relative, after, ?_⟩
  unfold destination
  rw [found]
  simp only [if_neg visible]

theorem components_destination (rest : List Path.Component) (filled : rest ≠ [])
    (split : entry.components = base.components ++ rest)
    (steps : ∀ c ∈ rest, c.step?.isSome) :
    (destination entry base output).components = output.components ++ rest := by
  obtain ⟨relative, rfl, joined⟩ := destination_eq_join output rest filled split
  rw [joined, output.components_join relative steps filled]

theorem destination_eq_shortText
    (apart : ∀ rest, rest ≠ [] → entry.components ≠ base.components ++ rest) :
    destination entry base output = output.join (.ofText entry.shortText) := by
  unfold destination
  split
  · rename_i relative found
    have none : relative.text = "" := by
      by_contra visible
      refine apart relative.components ?_ (entry.components_of_relativeTo? base relative found)
      rwa [Ne, relative.components_eq_nil_iff]
    rw [if_pos none]
  · rfl

theorem liesUnder_destination {names : List String}
    (h : entry.LiesUnder base names) : (destination entry base output).LiesUnder output names := by
  refine ⟨h.filled, components_destination output _ ?_ h.components ?_⟩
  · simpa using h.filled
  · intro c hc
    obtain ⟨name, -, rfl⟩ := List.mem_map.mp hc
    rfl

example : destination ⟨["", "src", "", ".", "a", "note.txt", ""]⟩ ⟨["", "src", ""]⟩
    ⟨["", "out"]⟩ = ⟨["", "out", "a", "note.txt"]⟩ := by decide

/-- An entry below the base goes to its place below the output, with its name, apart from any other
entry, and swapping the directories leads back. An entry that goes on from the base in any other way
goes on from the output in that way, too. What is left goes right below the output. -/
theorem destination_rebases (entry base output : Path) :
    (∀ names, entry.LiesUnder base names →
      (destination entry base output).LiesUnder output names ∧
      (destination entry base output).fileName? = entry.fileName? ∧
      (∀ other others, other.LiesUnder base others → other.same entry = false →
        (destination other base output).same (destination entry base output) = false) ∧
      (destination (destination entry base output) output base).same entry = true) ∧
    (∀ fs : FileSystem, (∀ e ∈ fs.tree.entries, ∀ s ∈ e.1, IsEntryName s) →
      entry ∈ fs.walk base → ∃ names, entry.LiesUnder base names) ∧
    (∀ rest, rest ≠ [] → entry.components = base.components ++ rest →
      (∃ relative : Path, relative.components = rest ∧
        destination entry base output = output.join relative) ∧
      (base.components ≠ [] →
        (destination entry base output).components = output.components ++ rest)) ∧
    (∀ name, entry.fileName? = some name →
      (∀ rest, rest ≠ [] → entry.components ≠ base.components ++ rest) →
      destination entry base output = output.join (.ofText name)) := by
  refine ⟨?_, ?_, ?_, ?_⟩
  · intro names h
    have there := liesUnder_destination output h
    refine ⟨there, there.fileName?.trans h.fileName?.symm, ?_, ?_⟩
    · intro other others h' apart
      have different : others ≠ names := by
        rw [Ne, ← h'.same_iff h, apart]
        exact Bool.false_ne_true
      have there' := liesUnder_destination output h'
      exact Bool.eq_false_iff.mpr (mt (there'.same_iff there).mp different)
    · exact ((liesUnder_destination base there).same_iff h).mpr rfl
  · intro fs named found
    exact fs.liesUnder_of_walk base entry named found
  · intro rest filled split
    refine ⟨destination_eq_join output rest filled split, fun based => ?_⟩
    exact components_destination output rest filled split
      (entry.step?_of_components base.components rest based split)
  · intro name named apart
    rw [destination_eq_shortText output apart, Path.shortText, named, Option.getD_some]

theorem destination_upward :
    let entry : Path := ⟨["", "box", "in", "..", "note.txt"]⟩
    let base : Path := ⟨["", "box", "in"]⟩
    let output : Path := ⟨["", "out"]⟩
    entry.fileName? = some "note.txt" ∧
      (destination entry base output).components =
        output.components ++ [.parent, .normal "note.txt"] ∧
      (destination entry base output).same (output.join (.ofText "note.txt")) = false := by
  intro entry base output
  have upward := ((destination_rebases entry base output).2.2.1 [.parent, .normal "note.txt"]
    (by decide) (by decide)).2 (by decide)
  refine ⟨by decide, upward, ?_⟩
  rw [Path.same, upward]
  decide +kernel

end Group
end SimpleFiles
