import SimpleFiles.Text.Case

/-! Case mappings change no character twice, and leave alone whatever comes before the
letters; so a text whose case was changed stays as it is when it is changed again. -/
namespace SimpleFiles.Text

/-- Numbers from `low` to `high` in steps of one or two. -/
structure Stretch where
  low : Nat
  high : Nat
  step : Nat

def Stretch.Holds (s : Stretch) (n : Nat) : Prop :=
  s.low ≤ n ∧ n ≤ s.high ∧ (s.step = 2 → (n - s.low) % 2 = 0)

def Stretch.single (n : Nat) : Stretch := ⟨n, n, 2⟩

/-- The run maps no number of the stretch: they lie apart, or it maps every other number
and these are the others. -/
def CaseRun.misses (run : CaseRun) (s : Stretch) : Bool :=
  Nat.blt s.high run.first || Nat.blt run.last s.low ||
    Nat.beq run.step 2 && (Nat.beq s.step 2 || Nat.beq s.low s.high) &&
      !Nat.beq (s.low % 2) (run.first % 2)

theorem CaseRun.map?_of_misses (run : CaseRun) (s : Stretch) (n : Nat)
    (h : run.misses s = true) (hn : s.Holds n) : run.map? n = none := by
  obtain ⟨hlow, hhigh, hstep⟩ := hn
  unfold map?
  rw [if_neg]
  rintro ⟨hf, hl, hm⟩
  simp only [misses, Bool.or_eq_true, Bool.and_eq_true, Nat.blt_eq, Nat.beq_eq,
    Bool.not_eq_true', Bool.eq_false_iff, ne_eq] at h
  rcases h with (h | h) | ⟨⟨hr, hs⟩, hp⟩
  · omega
  · omega
  · rw [hr] at hm
    rcases hs with hs | hs
    · have := hstep hs
      omega
    · omega

theorem CaseRun.first_le_of_map? (run : CaseRun) (n m : Nat) (h : run.map? n = some m) :
    run.first ≤ n := by
  unfold map? at h
  split at h
  · rename_i inside
    exact inside.1
  · cases h

def CaseRun.images (run : CaseRun) : Stretch :=
  ⟨run.image, run.image + (run.last - run.first), run.step⟩

theorem CaseRun.holds_images (run : CaseRun) (n m : Nat) (h : run.map? n = some m) :
    run.images.Holds m := by
  unfold map? at h
  split at h
  · rename_i inside
    cases h
    refine ⟨Nat.le_add_right _ _, ?_, ?_⟩
    · show run.image + (n - run.first) ≤ run.image + (run.last - run.first)
      omega
    · intro hs
      have hs' : run.step = 2 := hs
      show (run.image + (n - run.first) - run.image) % 2 = 0
      rw [Nat.add_sub_cancel_left, ← hs', inside.2.2]
  · cases h

def firstLetter : Nat := 65

/-- The numbers are characters, letters or later ones, that no mapping changes. -/
def isFixed (runs : List CaseRun) (expansions : List (Nat × List Nat)) (s : Stretch) : Bool :=
  Nat.ble firstLetter s.low
    && (Nat.blt s.high 0xD800 || Nat.blt 0xDFFF s.low && Nat.blt s.high 0x110000)
    && runs.all (·.misses s)
    && expansions.all fun e => CaseRun.misses ⟨e.1, e.1, 2, 0⟩ s

/-- Only letters are mapped, and whatever they are mapped to is fixed. -/
def isStable (runs : List CaseRun) (expansions : List (Nat × List Nat)) : Bool :=
  runs.all (fun run => Nat.ble firstLetter run.first && isFixed runs expansions run.images)
    && expansions.all fun e => Nat.ble firstLetter e.1 && !e.2.isEmpty
      && e.2.all (isFixed runs expansions <| .single ·)

theorem isStable_upper : isStable upperRuns upperExpansions = true := by decide +kernel

theorem isStable_lower : isStable lowerRuns lowerExpansions = true := by decide +kernel

section
variable (runs : List CaseRun) (expansions : List (Nat × List Nat))

theorem mapChar_of_isFixed (s : Stretch) (n : Nat) (h : isFixed runs expansions s = true)
    (hn : s.Holds n) :
    firstLetter ≤ (Char.ofNat n).toNat ∧
      mapChar runs expansions (Char.ofNat n) = [Char.ofNat n] := by
  simp only [isFixed, Bool.and_eq_true, Bool.or_eq_true, Nat.ble_eq, Nat.blt_eq,
    List.all_eq_true] at h
  obtain ⟨⟨⟨letter, valid⟩, missed⟩, unexpanded⟩ := h
  have scalar : n.isValidChar := by
    unfold Nat.isValidChar
    have := hn.1
    have := hn.2.1
    omega
  have number : (Char.ofNat n).toNat = n := by
    rw [Char.ofNat, dif_pos scalar]
    rfl
  have noEntry : expansions.lookup n = none := by
    rw [List.lookup_eq_none_iff]
    intro e he
    have apart := CaseRun.map?_of_misses _ s n (unexpanded e he) hn
    have differ : n ≠ e.1 := by
      intro key
      simp [CaseRun.map?, key] at apart
    simpa using differ
  have noRun : (runs.findSome? fun run => run.map? n) = none := by
    rw [List.findSome?_eq_none_iff]
    intro run hrun
    exact run.map?_of_misses s n (missed run hrun) hn
  constructor
  · rw [number]
    exact Nat.le_trans letter hn.1
  · simp [mapChar, number, noEntry, noRun]

theorem mapChar_cases (h : isStable runs expansions = true) (c : Char) :
    mapChar runs expansions c = [c] ∨ firstLetter ≤ c.toNat ∧ mapChar runs expansions c ≠ [] ∧
      ∀ d ∈ mapChar runs expansions c, firstLetter ≤ d.toNat ∧ mapChar runs expansions d = [d] := by
  simp only [isStable, Bool.and_eq_true, List.all_eq_true, Nat.ble_eq, Bool.not_eq_true',
    List.isEmpty_eq_false_iff] at h
  cases he : expansions.lookup c.toNat with
  | some image =>
    obtain ⟨before, after, entry, -⟩ := List.lookup_eq_some_iff.mp he
    obtain ⟨⟨letter, filled⟩, fixed⟩ := h.2 (c.toNat, image) (by simp [entry])
    refine .inr ⟨letter, ?_⟩
    simp only [mapChar, he]
    refine ⟨by simpa using filled, ?_⟩
    intro d hd
    obtain ⟨n, hn, rfl⟩ := List.mem_map.mp hd
    have here := mapChar_of_isFixed runs expansions _ n (fixed n hn)
      ⟨Nat.le_refl n, Nat.le_refl n, by simp [Stretch.single]⟩
    exact here
  | none =>
    cases hr : runs.findSome? fun run => run.map? c.toNat with
    | none =>
      exact .inl (by simp [mapChar, he, hr])
    | some n =>
      obtain ⟨run, hrun, hmap⟩ := List.exists_of_findSome?_eq_some hr
      obtain ⟨letter, fixed⟩ := h.1 run hrun
      have here := mapChar_of_isFixed runs expansions _ n fixed (run.holds_images c.toNat n hmap)
      have mapped : mapChar runs expansions c = [Char.ofNat n] := by simp [mapChar, he, hr]
      have inside := run.first_le_of_map? c.toNat n hmap
      rw [mapped]
      refine .inr ⟨Nat.le_trans letter inside, List.cons_ne_nil _ _, ?_⟩
      intro d hd
      rw [List.mem_singleton.mp hd]
      exact here

end

/-- The second text may come from changing the case of the first: each character is
kept, or it is a letter and letters stand for it. -/
inductive Recased : List Char → List Char → Prop where
  | nil : Recased [] []
  | cons (c : Char) (ds cs es : List Char) (rest : Recased cs es)
    (hd : ds = [c] ∨ firstLetter ≤ c.toNat ∧ ds ≠ [] ∧ ∀ d ∈ ds, firstLetter ≤ d.toNat) :
    Recased (c :: cs) (ds ++ es)

namespace Recased

theorem append {cs ds cs' ds' : List Char} (h : Recased cs ds) (h' : Recased cs' ds') :
    Recased (cs ++ cs') (ds ++ ds') := by
  induction h with
  | nil => exact h'
  | cons c ds cs es rest hd ih =>
    rw [List.append_assoc]
    exact .cons c ds _ _ ih hd

theorem refl (cs : List Char) : Recased cs cs := by
  induction cs with
  | nil => exact .nil
  | cons c cs ih => exact .cons c [c] cs cs ih (.inl rfl)

theorem nil_iff {cs ds : List Char} (h : Recased cs ds) : ds = [] ↔ cs = [] := by
  cases h with
  | nil => simp
  | cons c ds cs es rest hd =>
    rcases hd with rfl | ⟨-, filled, -⟩
    · simp
    · simp [filled]

theorem mem_iff {cs ds : List Char} (h : Recased cs ds) (a : Char) (ha : a.toNat < firstLetter) :
    a ∈ ds ↔ a ∈ cs := by
  induction h with
  | nil => rfl
  | cons c ds cs es rest hd ih =>
    rw [List.mem_append, List.mem_cons, ih]
    rcases hd with rfl | ⟨letter, -, letters⟩
    · simp
    · have absent : a ∉ ds := fun hm => absurd (letters a hm) (Nat.not_le_of_lt ha)
      have other : a ≠ c := by
        rintro rfl
        omega
      simp [absent, other]

theorem of_cons {cs ds : List Char} {a : Char} (h : Recased cs (a :: ds))
    (ha : a.toNat < firstLetter) : ∃ rest, cs = a :: rest ∧ Recased rest ds := by
  generalize he : a :: ds = text at h
  cases h with
  | nil => cases he
  | cons c ds' cs es rest hd =>
    rcases hd with rfl | ⟨-, filled, letters⟩
    · cases he
      exact ⟨cs, rfl, rest⟩
    · cases ds' with
      | nil => exact absurd rfl filled
      | cons d more =>
        cases he
        have := letters a (List.mem_cons_self ..)
        omega

theorem of_concat {cs ds : List Char} {a : Char} (h : Recased (cs ++ [a]) ds)
    (ha : a.toNat < firstLetter) : ∃ front, ds = front ++ [a] := by
  generalize he : cs ++ [a] = text at h
  induction h generalizing cs with
  | nil => simp at he
  | cons c ds' cs' es rest hd ih =>
    cases cs with
    | nil =>
      simp only [List.nil_append, List.cons.injEq] at he
      obtain ⟨rfl, rfl⟩ := he
      rcases hd with rfl | ⟨letter, -, -⟩
      · cases rest
        exact ⟨[], rfl⟩
      · omega
    | cons c' cs =>
      simp only [List.cons_append, List.cons.injEq] at he
      obtain ⟨front, hf⟩ := ih he.2
      exact ⟨ds' ++ front, by rw [hf, List.append_assoc]⟩

end Recased

theorem mapChar_of_mem (runs : List CaseRun) (expansions : List (Nat × List Nat))
    (h : isStable runs expansions = true) (c d : Char) (hd : d ∈ mapChar runs expansions c) :
    mapChar runs expansions d = [d] := by
  rcases mapChar_cases runs expansions h c with kept | ⟨-, -, mapped⟩
  · rw [kept, List.mem_singleton] at hd
    rw [hd, kept]
  · exact (mapped d hd).2

theorem Recased.cons_mapChar (runs : List CaseRun) (expansions : List (Nat × List Nat))
    (h : isStable runs expansions = true) (c : Char) {cs es : List Char} (rest : Recased cs es) :
    Recased (c :: cs) (mapChar runs expansions c ++ es) := by
  apply Recased.cons c _ cs es rest
  rcases mapChar_cases runs expansions h c with kept | ⟨letter, filled, mapped⟩
  · exact .inl kept
  · exact .inr ⟨letter, filled, fun d hd => (mapped d hd).1⟩

theorem recased_upper (s : String) : Recased s.toList (upper s).toList := by
  rw [upper, String.toList_ofList]
  induction s.toList with
  | nil => exact .nil
  | cons c cs ih => exact .cons_mapChar _ _ isStable_upper c ih

theorem upper_upper (s : String) : upper (upper s) = upper s := by
  have kept : ∀ ds : List Char, (∀ d ∈ ds, upperChar d = [d]) → ds.flatMap upperChar = ds := by
    intro ds h
    induction ds with
    | nil => rfl
    | cons d ds ih =>
      rw [List.flatMap_cons, h d (List.mem_cons_self ..),
        ih fun e he => h e (List.mem_cons_of_mem _ he)]
      rfl
  rw [upper, upper, String.toList_ofList, kept]
  intro d hd
  obtain ⟨c, -, hc⟩ := List.mem_flatMap.mp hd
  exact mapChar_of_mem _ _ isStable_upper c d hc

theorem recased_lowerFrom (before cs : List Char) : Recased cs (lowerFrom before cs) := by
  induction cs generalizing before with
  | nil => exact .nil
  | cons c cs ih =>
    rw [lowerFrom]
    split
    · rename_i sigma
      have letter : ∀ d ∈ [if casedNext before && !casedNext cs then 'ς' else 'σ'],
          firstLetter ≤ d.toNat := by
        intro d hd
        rw [List.mem_singleton.mp hd]
        split <;> decide
      exact .cons c _ cs _ (ih _) (.inr ⟨sigma ▸ by decide, List.cons_ne_nil _ _, letter⟩)
    · exact .cons_mapChar _ _ isStable_lower c (ih _)

theorem recased_lower (s : String) : Recased s.toList (lower s).toList := by
  rw [lower, String.toList_ofList]
  exact recased_lowerFrom [] s.toList

theorem lowerChar_of_mem_lowerFrom (before cs : List Char) :
    ∀ d ∈ lowerFrom before cs, d ≠ 'Σ' ∧ lowerChar d = [d] := by
  induction cs generalizing before with
  | nil => exact nofun
  | cons c cs ih =>
    intro d hd
    rw [lowerFrom, List.mem_append] at hd
    rcases hd with hd | hd
    · split at hd
      · rw [List.mem_singleton.mp hd]
        split <;> decide
      · have kept : lowerChar d = [d] := mapChar_of_mem _ _ isStable_lower c d hd
        refine ⟨?_, kept⟩
        rintro rfl
        exact absurd kept (by decide)
    · exact ih _ d hd

theorem lower_lower (s : String) : lower (lower s) = lower s := by
  have kept : ∀ (ds before : List Char), (∀ d ∈ ds, d ≠ 'Σ' ∧ lowerChar d = [d]) →
      lowerFrom before ds = ds := by
    intro ds
    induction ds with
    | nil => exact fun _ _ => rfl
    | cons d ds ih =>
      intro before h
      have first := h d (List.mem_cons_self ..)
      rw [lowerFrom, if_neg first.1, first.2, ih _ fun e he => h e (List.mem_cons_of_mem _ he)]
      rfl
  rw [lower, lower, String.toList_ofList, kept _ _ (lowerChar_of_mem_lowerFrom [] s.toList)]

end SimpleFiles.Text
