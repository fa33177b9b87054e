import SimpleFiles.Proofs.FileName

/-! Extensions of file names through a change of case. The two notions of an extension agree on what
they leave alone: the one that a renaming keeps, with its dot, and the one that a filter compares. -/
namespace SimpleFiles.FileName

theorem append_split (name : List Char) : (split name).1 ++ (split name).2 = name := by
  rcases stem_or_extension name with stem | ⟨stem, after, written, filled, clear⟩
  · rw [split_of_stem name stem, List.append_nil]
  · rw [written, split_of_extension stem after filled clear]

theorem split_renamed (mode : CaseMode) (name : String) :
    split (renamed mode name).toList =
      ((mode.apply (.ofList (split name.toList).1)).toList, (split name.toList).2) := by
  rcases stem_or_extension name.toList with stem | ⟨stem, after, written, filled, clear⟩
  · rw [renamed_of_stem mode name stem, split_of_stem _ (stem_apply mode name stem),
      split_of_stem _ stem, String.ofList_toList]
  · rw [toList_renamed_of_extension mode written filled clear, written,
      split_of_extension _ after filled clear, split_of_extension stem after filled clear]

theorem renamed_ne_empty (mode : CaseMode) {name : String} (filled : name ≠ "") :
    renamed mode name ≠ "" := by
  intro none
  have recased := recased_renamed mode name
  rw [none] at recased
  exact filled (String.toList_eq_nil_iff.mp (recased.nil_iff.mp rfl))

theorem extension_of_dot {name : String} {front after : List Char}
    (written : name.toList = front ++ '.' :: after) (clear : '.' ∉ after) :
    extension name = .ofList after := by
  rw [extension, written, aroundLastDot?_of_dot front after clear]

theorem extension_renamed (mode : CaseMode) {name : String} (dotted : '.' ∈ name.toList) :
    extension (renamed mode name) = extension name := by
  rcases stem_or_extension name.toList with
    (bare | ⟨front, last⟩) | ⟨stem, after, written, filled, clear⟩
  · exact absurd dotted bare
  · have recased := recased_renamed mode name
    rw [last] at recased
    obtain ⟨front', last'⟩ := recased.of_concat (by decide)
    rw [extension_of_dot last' nofun, extension_of_dot last nofun]
  · rw [extension_of_dot (toList_renamed_of_extension mode written filled clear) clear,
      extension_of_dot written clear]

/-- A name falls into its stem and its extension. Renaming changes the case of the stem and nothing
else, so that the two are found again; a second time it changes nothing. No name is lost, and for a
name with a dot a filter sees the same extension as before. -/
theorem renamed_keeps_extension (mode : CaseMode) (name : String) :
    (split name.toList).1 ++ (split name.toList).2 = name.toList ∧
    split (renamed mode name).toList =
      ((mode.apply (.ofList (split name.toList).1)).toList, (split name.toList).2) ∧
    renamed mode (renamed mode name) = renamed mode name ∧
    (name ≠ "" → renamed mode name ≠ "") ∧
    ('.' ∈ name.toList → extension (renamed mode name) = extension name) :=
  ⟨append_split name.toList, split_renamed mode name, renamed_renamed mode name,
    renamed_ne_empty mode, extension_renamed mode⟩

example : extension "straße" = "straße" ∧ extension (renamed .upper "straße") = "STRASSE" := by
  decide +kernel

end SimpleFiles.FileName
