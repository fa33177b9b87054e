import SimpleFiles.Proofs.Path.Joining

/-! Paths that go on from a directory, each name a level down. What is put below such a path goes
on, too, and so does a path that is moved from below one to below another. -/
namespace SimpleFiles.Path

/-- No segment holds a slash, as in every path that is read from a text. -/
def IsPlain (p : Path) : Prop := ∀ s ∈ p.segments, '/' ∉ s.toList

theorem isPlain_ofText (text : String) : (ofText text).IsPlain := fun s hs =>
  (mem_of_mem_ofText text s hs).1

theorem segments_ofText_ne_nil (text : String) : (ofText text).segments ≠ [] := by
  simp [ofText, List.splitOn_ne_nil]

theorem steps_cons_of_idle (s : String) (rest : List String) (idle : isIdle s = true) :
    steps (s :: rest) = steps rest := by
  simp [steps, idle]

theorem steps_cons_of_moving (s : String) (rest : List String) (moves : isIdle s = false) :
    steps (s :: rest) = s :: steps rest := by
  simp [steps, moves]

theorem steps_dropIdle (segments : List String) : steps (dropIdle segments) = steps segments := by
  induction segments with
  | nil => rfl
  | cons s rest ih =>
    cases idle : isIdle s with
    | true =>
      rw [dropIdle, List.dropWhile_cons_of_pos idle, steps_cons_of_idle s rest idle, ← ih, dropIdle]
    | false => rw [dropIdle, List.dropWhile_cons_of_neg (by simp [idle])]

theorem steps_dropIdleRight (segments : List String) :
    steps (dropIdleRight segments) = steps segments := by
  obtain ⟨idle, split, allIdle⟩ := dropIdleRight_append segments
  conv => rhs; rw [split, steps_append, steps_of_idle idle allIdle, List.append_nil]

theorem steps_dropComponents (n : Nat) (segments : List String) :
    steps (dropComponents n segments) = (steps segments).drop n := by
  induction segments generalizing n with
  | nil => cases n <;> rfl
  | cons s rest ih =>
    cases n with
    | zero => rfl
    | succ n =>
      cases idle : isIdle s with
      | true => rw [dropComponents, if_pos idle, ih, steps_cons_of_idle s rest idle]
      | false =>
        rw [dropComponents, idle, if_neg Bool.false_ne_true, ih, steps_cons_of_moving s rest idle,
          List.drop_succ_cons]

theorem mem_of_mem_dropComponents (n : Nat) (segments : List String) (s : String)
    (h : s ∈ dropComponents n segments) : s ∈ segments := by
  induction segments generalizing n with
  | nil => cases n <;> cases h
  | cons x rest ih =>
    cases n with
    | zero => exact h
    | succ n =>
      rw [dropComponents] at h
      split at h
      · exact List.mem_cons_of_mem _ (ih _ h)
      · exact List.mem_cons_of_mem _ (ih _ h)

theorem steps_ofStart (first : Option Component) (segments : List String) :
    steps (ofStart first segments).segments = steps segments := by
  unfold ofStart
  split
  · rfl
  · exact steps_cons_of_idle "" _ rfl
  · exact steps_cons_of_idle "." _ rfl
  · rfl
  · rfl

theorem mem_ofStart (first : Option Component) (segments : List String) (s : String)
    (h : s ∈ (ofStart first segments).segments) : s = "" ∨ s = "." ∨ s ∈ segments := by
  unfold ofStart at h
  split at h
  · simp_all
  · exact (List.mem_cons.mp h).imp_right .inr
  · exact .inr (List.mem_cons.mp h)
  · simp_all [empty]
  · exact .inr (.inr h)

theorem start_cases (p : Path) :
    (∃ s, p.segments = s :: p.start.2 ∧ isIdle s = true) ∨ p.segments = p.start.2 := by
  unfold start
  split
  · rename_i first rest split
    exact .inl ⟨"", split, rfl⟩
  · rename_i rest split
    exact .inl ⟨".", split, rfl⟩
  · exact .inr rfl

theorem steps_start (p : Path) : steps p.start.2 = steps p.segments := by
  rcases p.start_cases with ⟨s, split, idle⟩ | same
  · conv => rhs; rw [split, steps_cons_of_idle s _ idle]
  · rw [← same]

theorem mem_of_mem_start (p : Path) (s : String) (h : s ∈ p.start.2) : s ∈ p.segments := by
  rcases p.start_cases with ⟨first, split, -⟩ | same
  · rw [split]
    exact List.mem_cons_of_mem _ h
  · rwa [same]

theorem mem_of_mem_dropIdleRight (segments : List String) (s : String)
    (h : s ∈ dropIdleRight segments) : s ∈ segments := by
  obtain ⟨idle, split, -⟩ := dropIdleRight_append segments
  rw [split]
  exact List.mem_append_left _ h

theorem isIdle_of_getLast?_dropIdleRight (segments : List String) (s : String)
    (h : (dropIdleRight segments).getLast? = some s) : isIdle s = false := by
  rw [dropIdleRight, List.getLast?_reverse] at h
  have kept := List.head?_dropWhile_not isIdle segments.reverse
  rw [h] at kept
  simpa using kept

theorem steps_parent? (p q : Path) (h : p.parent? = some q) :
    steps q.segments = (steps p.segments).dropLast := by
  rw [← steps_start p, ← steps_dropIdleRight p.start.2]
  unfold parent? at h
  split at h
  · rename_i nothing
    cases h
    rw [nothing]
    rfl
  · cases h
  · cases h
    rw [steps_ofStart, steps_dropIdleRight]
    generalize hk : dropIdleRight p.start.2 = kept
    rcases List.eq_nil_or_concat' kept with rfl | ⟨init, s, rfl⟩
    · rfl
    · have moves := isIdle_of_getLast?_dropIdleRight p.start.2 s (by simp [hk])
      rw [List.dropLast_concat, steps_append, steps_cons_of_moving s [] moves, steps, steps,
        List.filter_nil, List.dropLast_concat]

theorem mem_parent? (p q : Path) (h : p.parent? = some q) (s : String) (hs : s ∈ q.segments) :
    s = "" ∨ s = "." ∨ s ∈ p.segments := by
  unfold parent? at h
  split at h
  · cases h
    exact .inl (List.mem_singleton.mp hs)
  · cases h
  · cases h
    refine (mem_ofStart _ _ s hs).imp_right (Or.imp_right fun inside => ?_)
    exact p.mem_of_mem_start s (mem_of_mem_dropIdleRight _ s
      ((List.dropLast_subset _) (mem_of_mem_dropIdleRight _ s inside)))

theorem IsPlain.parent? {p q : Path} (plain : p.IsPlain) (h : p.parent? = some q) : q.IsPlain := by
  intro s hs
  rcases p.mem_parent? q h s hs with rfl | rfl | inside
  · exact List.not_mem_nil
  · decide
  · exact plain s inside

def stepComponent (s : String) : Component := if s = ".." then .parent else .normal s

theorem filterMap_component?_eq (segments : List String) :
    segments.filterMap component? = (steps segments).map stepComponent := by
  induction segments with
  | nil => rfl
  | cons s rest ih =>
    cases idle : isIdle s with
    | true =>
      rw [List.filterMap_cons, component?_of_isIdle s idle, steps_cons_of_idle s rest idle, ih]
    | false =>
      have component : component? s = some (stepComponent s) := by
        rw [component?, idle, if_neg Bool.false_ne_true, stepComponent]
        split <;> rfl
      rw [List.filterMap_cons, component, steps_cons_of_moving s rest idle, List.map_cons, ih]

theorem exists_of_isAbsolute (p : Path) (h : p.isAbsolute = true) :
    ∃ s rest, p.segments = "" :: s :: rest ∧ p.start = (some .root, s :: rest) := by
  unfold isAbsolute at h
  split at h
  · rename_i s rest split
    refine ⟨s, rest, split, ?_⟩
    unfold start
    rw [split]
    rfl
  · cases h

theorem text_ne_empty_of_isAbsolute (p : Path) (h : p.isAbsolute = true) : p.text ≠ "" := by
  obtain ⟨s, rest, split, -⟩ := p.exists_of_isAbsolute h
  rw [Ne, text_eq_empty_iff, split]
  simp

theorem components_of_isAbsolute (p : Path) (h : p.isAbsolute = true) :
    p.components = .root :: (steps p.segments).map stepComponent := by
  obtain ⟨s, rest, split, start⟩ := p.exists_of_isAbsolute h
  rw [components, start, filterMap_component?_eq, split, steps_cons_of_idle "" _ rfl]
  rfl

theorem map_stepComponent (names : List String) (down : ".." ∉ names) :
    names.map stepComponent = names.map .normal := by
  apply List.map_congr_left
  intro s hs
  rw [stepComponent, if_neg]
  rintro rfl
  exact down hs

structure IsInner (p : Path) : Prop where
  relative : p.isAbsolute = false
  down : ".." ∉ p.segments

instance (p : Path) : Decidable p.IsInner :=
  decidable_of_iff (p.isAbsolute = false ∧ ".." ∉ p.segments)
    ⟨fun ⟨relative, down⟩ => ⟨relative, down⟩, fun h => ⟨h.relative, h.down⟩⟩

theorem isInner_of_noSlash (name : String) (noSlash : '/' ∉ name.toList) (notParent : name ≠ "..") :
    (ofText name).IsInner := by
  rw [ofText_of_noSlash name noSlash]
  exact ⟨isAbsolute_singleton name, fun up => notParent (List.mem_singleton.mp up).symm⟩

/-- A path has the steps of a directory and then names, each a level down. -/
structure Extends (dir : Path) (names : List String) (p : Path) : Prop where
  absolute : p.isAbsolute = true
  plain : p.IsPlain
  steps : Path.steps p.segments = Path.steps dir.segments ++ names
  down : ".." ∉ names

def IsBelow (p dir : Path) : Prop := ∃ names, names ≠ [] ∧ dir.Extends names p

theorem IsBelow.plain {p dir : Path} (h : p.IsBelow dir) : p.IsPlain := by
  obtain ⟨names, -, extended⟩ := h
  exact extended.plain

theorem isAbsolute_folder (p : Path) (h : p.isAbsolute = true) (more : List String)
    (filled : more ≠ []) : isAbsolute ⟨p.folder ++ more⟩ = true := by
  obtain ⟨s, rest, split, -⟩ := p.exists_of_isAbsolute h
  obtain ⟨s', rest', rfl⟩ := List.exists_cons_of_ne_nil filled
  rcases p.segments_eq_folder with same | trailing
  · rw [← same, split]
    rfl
  · obtain ⟨front, folder⟩ : ∃ front, p.folder = "" :: front := by
      rw [split] at trailing
      cases hf : p.folder with
      | nil =>
        rw [hf] at trailing
        cases trailing
      | cons x front =>
        rw [hf] at trailing
        exact ⟨front, by rw [← (List.cons.inj trailing).1]⟩
    rw [folder]
    cases front <;> rfl

theorem mem_of_mem_folder (p : Path) (s : String) (h : s ∈ p.folder) : s ∈ p.segments := by
  rcases p.segments_eq_folder with same | trailing
  · rwa [same]
  · rw [trailing]
    exact List.mem_append_left _ h

structure IsRooted (p : Path) : Prop where
  absolute : p.isAbsolute = true
  plain : p.IsPlain

theorem IsRooted.self {p : Path} (h : p.IsRooted) : p.Extends [] p :=
  ⟨h.absolute, h.plain, (List.append_nil _).symm, List.not_mem_nil⟩

theorem IsRooted.join_ofText {p : Path} (h : p.IsRooted) (text : String) :
    (p.join (.ofText text)).IsRooted := by
  rcases p.join_cases (.ofText text) with ⟨absolute, joined⟩ | ⟨-, joined⟩
  · rw [joined]
    exact ⟨absolute, isPlain_ofText text⟩
  · rw [joined]
    refine ⟨p.isAbsolute_folder h.absolute _ (segments_ofText_ne_nil text), ?_⟩
    intro s hs
    rcases List.mem_append.mp hs with hs | hs
    · exact h.plain s (p.mem_of_mem_folder s hs)
    · exact isPlain_ofText text s hs

namespace Extends

variable {dir p : Path} {names : List String}

theorem append (h : dir.Extends names p) (more : List String) (filled : more ≠ [])
    (plain : ∀ s ∈ more, '/' ∉ s.toList) (down : ".." ∉ more) :
    dir.Extends (names ++ Path.steps more) ⟨p.folder ++ more⟩ := by
  refine ⟨p.isAbsolute_folder h.absolute more filled, ?_, ?_, ?_⟩
  · intro s hs
    rcases List.mem_append.mp hs with hs | hs
    · exact h.plain s (p.mem_of_mem_folder s hs)
    · exact plain s hs
  · rw [steps_append, steps_folder, h.steps, List.append_assoc]
  · intro up
    rcases List.mem_append.mp up with up | up
    · exact h.down up
    · exact down (List.mem_of_mem_filter up)

theorem join (h : dir.Extends names p) (q : Path) (filled : q.segments ≠ []) (plain : q.IsPlain)
    (inner : q.IsInner) : dir.Extends (names ++ Path.steps q.segments) (p.join q) := by
  rcases p.join_cases q with ⟨absolute, -⟩ | ⟨-, joined⟩
  · rw [inner.relative] at absolute
    cases absolute
  · rw [joined]
    exact h.append q.segments filled plain inner.down

theorem join_ofText (h : dir.Extends names p) (text : String) (inner : (ofText text).IsInner) :
    dir.Extends (names ++ Path.steps (ofText text).segments) (p.join (.ofText text)) :=
  h.join _ (segments_ofText_ne_nil text) (isPlain_ofText text) inner

theorem below (h : dir.Extends names p) (more : List String) (filled : more ≠ [])
    (named : ∀ s ∈ more, IsEntryName s) : dir.Extends (names ++ more) (p.below more) := by
  rw [p.below_eq more filled named]
  have extended := h.append more filled (fun s hs => (named s hs).noSlash)
    fun up => (named _ up).notParent rfl
  rwa [steps_of_named more named] at extended

theorem moving (h : dir.Extends names p) : ∀ s ∈ names, isIdle s = false := by
  intro s hs
  have step : s ∈ Path.steps p.segments := by
    rw [h.steps]
    exact List.mem_append_right _ hs
  simpa using (List.mem_filter.mp step).2

theorem components (h : dir.Extends names p) (absolute : dir.isAbsolute = true) :
    p.components = dir.components ++ names.map .normal := by
  rw [components_of_isAbsolute p h.absolute, components_of_isAbsolute dir absolute, h.steps,
    List.map_append, map_stepComponent names h.down]
  rfl

theorem fileName? (h : dir.Extends names p) (absolute : dir.isAbsolute = true)
    (init : List String) (name : String) (hn : names = init ++ [name]) :
    p.fileName? = some name := by
  rw [Path.fileName?, h.components absolute, hn, List.map_append, ← List.append_assoc,
    List.map_cons, List.map_nil, List.getLast?_concat]

theorem join_shortText {output : Path} {between : List String} (h : dir.Extends names p)
    (filled : names ≠ []) (absolute : dir.isAbsolute = true)
    (ho : dir.Extends between output) : (output.join (.ofText p.shortText)).IsBelow dir := by
  obtain ⟨init, name, rfl⟩ := (List.eq_nil_or_concat' names).resolve_left filled
  have short : p.shortText = name := by
    rw [shortText, h.fileName? absolute init name rfl, Option.getD_some]
  have step : name ∈ Path.steps p.segments := by
    rw [h.steps]
    simp
  have noSlash := h.plain name (List.mem_of_mem_filter step)
  have notParent : name ≠ ".." := by
    rintro rfl
    exact h.down (by simp)
  have joined := ho.join_ofText name (isInner_of_noSlash name noSlash notParent)
  have moves := h.moving name (by simp)
  rw [ofText_of_noSlash name noSlash, steps_cons_of_moving name [] moves] at joined
  rw [short, ofText_of_noSlash name noSlash]
  exact ⟨_, List.append_ne_nil_of_right_ne_nil _ (List.cons_ne_nil _ _), joined⟩

theorem renamed {front idle : List String} {name new : String}
    (h : dir.Extends names ⟨front ++ name :: idle⟩) (filled : names ≠ []) (old : IsEntryName name)
    (named : IsEntryName new) (allIdle : ∀ s ∈ idle, isIdle s = true) :
    IsBelow ⟨trimmedFront front ++ [new]⟩ dir := by
  obtain ⟨init, last, rfl⟩ := (List.eq_nil_or_concat' names).resolve_left filled
  have split : Path.steps (front ++ name :: idle) = Path.steps front ++ [name] := by
    rw [steps_append, steps_cons_of_moving name idle (isIdle_of_isEntryName name old),
      steps_of_idle idle allIdle]
  have steps := split.symm.trans h.steps
  rw [← List.append_assoc] at steps
  have above := List.append_inj_left' steps rfl
  refine ⟨init ++ [new], List.concat_ne_nil _ _, ?_, ?_, ?_, ?_⟩
  · obtain ⟨s, rest, root, -⟩ := exists_of_isAbsolute _ h.absolute
    cases front with
    | nil => exact absurd (List.cons.inj root).1 old.filled
    | cons x front =>
      obtain rfl : x = "" := (List.cons.inj root).1
      show isAbsolute ⟨"" :: dropIdleRight front ++ [new]⟩ = true
      cases dropIdleRight front <;> rfl
  · intro s hs
    rcases List.mem_append.mp hs with kept | last
    · obtain ⟨trimmed, whole, -⟩ := trimmedFront_append front
      refine h.plain s (List.mem_append_left _ ?_)
      rw [whole]
      exact List.mem_append_left _ kept
    · rw [List.mem_singleton.mp last]
      exact named.noSlash
  · rw [steps_append, steps_trimmedFront, above, List.append_assoc,
      steps_of_named [new] (by simpa using named)]
  · intro up
    rcases List.mem_append.mp up with up | up
    · exact h.down (List.mem_append_left _ up)
    · exact named.notParent (List.mem_singleton.mp up).symm

end Extends

theorem isIdle_of_head?_dropIdle (segments : List String) (s : String)
    (h : (dropIdle segments).head? = some s) : isIdle s = false := by
  have kept := List.head?_dropWhile_not isIdle segments
  rw [← dropIdle, h] at kept
  simpa using kept

theorem ofStart_trimmed_cases (segments : List String) :
    steps segments = [] ∧ ofStart none (dropIdleRight (dropIdle segments)) = empty ∨
      steps segments ≠ [] ∧ ∃ s rest, isIdle s = false ∧ steps (s :: rest) = steps segments ∧
        ofStart none (dropIdleRight (dropIdle segments)) = ⟨s :: rest⟩ ∧
        ∀ x ∈ s :: rest, x ∈ segments := by
  have same : steps (dropIdleRight (dropIdle segments)) = steps segments := by
    rw [steps_dropIdleRight, steps_dropIdle]
  cases hd : dropIdle segments with
  | nil =>
    rw [hd] at same
    exact .inl ⟨same.symm, rfl⟩
  | cons s rest =>
    have moves := isIdle_of_head?_dropIdle segments s (by rw [hd]; rfl)
    rw [hd] at same
    obtain ⟨first, more, kept⟩ := List.exists_cons_of_ne_nil (dropIdleRight_ne_nil s rest moves)
    obtain ⟨idle, split, -⟩ := dropIdleRight_append (s :: rest)
    rw [kept] at same split
    have first_eq : s = first := (List.cons.inj split).1
    subst first_eq
    refine .inr ⟨?_, s, more, moves, same, by rw [kept]; rfl, ?_⟩
    · rw [← same, steps_cons_of_moving s more moves]
      exact List.cons_ne_nil _ _
    · intro x hx
      rw [← kept] at hx
      have inside := mem_of_mem_dropIdleRight _ x hx
      rw [← hd] at inside
      exact List.dropWhile_subset _ inside

namespace Extends

variable {dir p base relative : Path} {names between : List String}

theorem relativeTo? (h : dir.Extends names p) (hb : dir.Extends between base)
    (absolute : dir.isAbsolute = true) (found : p.relativeTo? base = some relative) :
    ∃ rest, names = between ++ rest ∧ (rest = [] ∧ relative = .empty ∨
      rest ≠ [] ∧ relative.segments ≠ [] ∧ relative.IsPlain ∧ relative.IsInner ∧
        Path.steps relative.segments = rest) := by
  obtain ⟨s, more, split, start⟩ := p.exists_of_isAbsolute h.absolute
  have count : base.components.length = (Path.steps base.segments).length + 1 := by
    rw [components_of_isAbsolute base hb.absolute, List.length_cons, List.length_map]
  unfold Path.relativeTo? at found
  split at found
  · rename_i within
    rw [List.isPrefixOf_iff_prefix, h.components absolute, hb.components absolute,
      List.prefix_append_right_inj] at within
    have injective : Function.Injective Component.normal := fun a b same => by cases same; rfl
    obtain ⟨rest, rfl⟩ := (List.prefix_map_iff_of_injective injective).mp within
    refine ⟨rest, rfl, ?_⟩
    generalize hl : dropComponents (Path.steps base.segments).length (s :: more) = left at found
    have steps_left : Path.steps left = rest := by
      rw [← hl, steps_dropComponents, ← steps_cons_of_idle "" (s :: more) rfl, ← split, h.steps,
        hb.steps, ← List.append_assoc, List.drop_left]
    simp only [count, Nat.succ_ne_zero, if_false, start, Option.toList_some, List.length_singleton,
      Nat.add_sub_cancel, hl, Option.some.injEq] at found
    rcases ofStart_trimmed_cases left with
      ⟨none, empty⟩ | ⟨filled, first, others, moves, kept, spelled, inside⟩
    · exact .inl ⟨steps_left ▸ none, found.symm.trans empty⟩
    · rw [found] at spelled
      subst spelled
      refine .inr ⟨steps_left ▸ filled, List.cons_ne_nil _ _, ?_,
        ⟨isAbsolute_of_moving first others moves, ?_⟩, kept.trans steps_left⟩
      · intro x hx
        refine h.plain x ?_
        rw [split]
        exact List.mem_cons_of_mem _ (mem_of_mem_dropComponents _ _ x (hl ▸ inside x hx))
      · intro up
        have step : ".." ∈ Path.steps (first :: others) := List.mem_filter.mpr ⟨up, by decide⟩
        rw [kept, steps_left] at step
        exact h.down (List.mem_append_right _ step)
  · cases found

end Extends

/-- A path that ends in a name, with no slash or dot after it. -/
def EndsInName (p : Path) : Prop :=
  ∃ front name, p.segments = front ++ [name] ∧ isIdle name = false ∧ name ≠ ".."

theorem EndsInName.getLast?_ne {p : Path} (h : p.EndsInName) : p.segments.getLast? ≠ some "" := by
  obtain ⟨front, name, split, moves, -⟩ := h
  rw [split, List.getLast?_concat]
  rintro ⟨⟩
  cases moves

theorem EndsInName.ne_empty {p : Path} (h : p.EndsInName) : p ≠ empty := by
  rintro rfl
  exact h.getLast?_ne rfl

theorem EndsInName.join (p : Path) {q : Path} (h : q.EndsInName) : (p.join q).EndsInName := by
  obtain ⟨front, name, split, moves, notUp⟩ := h
  rcases p.join_cases q with ⟨-, joined⟩ | ⟨-, joined⟩
  · exact ⟨front, name, by rw [joined, split], moves, notUp⟩
  · exact ⟨p.folder ++ front, name, by rw [joined, split, List.append_assoc], moves, notUp⟩

theorem endsInName_relativeTo? (p base relative : Path) (absolute : base.isAbsolute = true)
    (found : p.relativeTo? base = some relative) (filled : relative.segments ≠ [""])
    (down : ".." ∉ relative.segments) : relative.EndsInName := by
  have some : base.components.length ≠ 0 := by simp [components_of_isAbsolute base absolute]
  unfold relativeTo? at found
  split at found
  · simp only [if_neg some, Option.some.injEq] at found
    generalize hk : dropIdle (dropComponents _ _) = kept at found
    subst found
    rcases List.eq_nil_or_concat' (dropIdleRight kept) with none | ⟨init, name, ends⟩
    · rw [none] at filled
      exact absurd rfl filled
    · have moves := isIdle_of_getLast?_dropIdleRight kept name (by rw [ends, List.getLast?_concat])
      have spelled : (ofStart none (dropIdleRight kept)).segments = init ++ [name] := by
        rw [ends]
        cases init <;> rfl
      refine ⟨init, name, spelled, moves, ?_⟩
      rintro rfl
      exact down (by simp [spelled])
  · cases found

end SimpleFiles.Path
