import SimpleFiles.FileSystem
import SimpleFiles.Proofs.FileSystem.Leading
import SimpleFiles.Proofs.FileTree.Nodes

/-! What a rename that succeeds does to the tree, whatever stood in its way: the tree holds
what it held, but for what the rename was made onto. -/
namespace SimpleFiles.FileSystem

open FileTree

theorem names_of_rename {fs fs' : FileSystem} {old new : Path} (h : fs.rename old new = .ok fs') :
    ∃ source target n, LastName.ofPath fs.tree old = .ok (some source) ∧
      LastName.ofPath fs.tree new = .ok (some target) ∧
      fs.tree.get? source.location = some n := by
  unfold rename at h
  cases hold : LastName.ofPath fs.tree old with
  | error e => simp [hold, bind, Except.bind] at h
  | ok source =>
    cases hnew : LastName.ofPath fs.tree new with
    | error e => simp [hold, hnew, bind, Except.bind] at h
    | ok target =>
      cases source with
      | none => simp [hold, hnew, bind, Except.bind, throw, throwThe, MonadExceptOf.throw] at h
      | some source =>
        cases target with
        | none => simp [hold, hnew, bind, Except.bind, throw, throwThe, MonadExceptOf.throw] at h
        | some target =>
          cases hn : fs.tree.get? source.location with
          | none =>
            simp [hold, hnew, hn, bind, Except.bind, throw, throwThe, MonadExceptOf.throw] at h
          | some n => exact ⟨source, target, n, rfl, rfl, hn⟩

section
variable {fs fs' : FileSystem} {old new : Path} {source target : LastName} {n : Node}
  (hold : LastName.ofPath fs.tree old = .ok (some source))
  (hnew : LastName.ofPath fs.tree new = .ok (some target))
  (hn : fs.tree.get? source.location = some n)
  (h : fs.rename old new = .ok fs')

include hold hnew hn h in
/-- A rename that succeeds moves nothing into itself or onto what holds it, and a slash stands
after the names of directories only. -/
theorem guards_of_rename :
    (!n.isDirectory && (source.hasSlash || target.hasSlash)) = false ∧
      source.location.isPrefixOf target.parent = false ∧
      target.location.isPrefixOf source.parent = false := by
  unfold rename at h
  cases slash : !n.isDirectory && (source.hasSlash || target.hasSlash) with
  | true =>
    simp only [hold, hnew, hn, bind, Except.bind, slash, if_true, throw, throwThe,
      MonadExceptOf.throw, reduceCtorEq] at h
  | false =>
    cases within : source.location.isPrefixOf target.parent with
    | true =>
      simp only [hold, hnew, hn, bind, Except.bind, slash, within, Bool.false_eq_true, if_false,
        if_true, throw, throwThe, MonadExceptOf.throw, reduceCtorEq] at h
    | false =>
      cases above : target.location.isPrefixOf source.parent with
      | true =>
        simp only [hold, hnew, hn, bind, Except.bind, slash, within, above, Bool.false_eq_true,
          if_false, if_true, throw, throwThe, MonadExceptOf.throw, reduceCtorEq] at h
      | false => exact ⟨rfl, rfl, rfl⟩

include hold hnew hn h in
theorem moves_of_rename :
    source.location = target.location ∧ fs' = fs ∨
      source.location ≠ target.location ∧
        (fs.tree.isDirectory target.location = true → fs.tree.under target.location = []) ∧
        fs'.tree = fs.tree.move source.location target.location := by
  obtain ⟨slash, within, above⟩ := guards_of_rename hold hnew hn h
  unfold rename at h
  simp only [hold, hnew, hn, bind, Except.bind, slash, within, above, Bool.false_eq_true,
    if_false] at h
  split at h
  · rename_i same
    cases h
    exact .inl ⟨same, rfl⟩
  rename_i differ
  refine .inr ⟨differ, ?_⟩
  split at h
  · rename_i m hm
    split at h
    · cases h
    split at h
    · cases h
    split at h
    · cases h
    rename_i bare
    cases h
    refine ⟨?_, rfl⟩
    intro directory
    rw [(fs.tree.isDirectory_iff _).mp directory, Option.some.injEq] at hm
    simpa [← hm, Node.isDirectory] using bare
  · rename_i free
    cases h
    refine ⟨?_, rfl⟩
    intro directory
    rw [(fs.tree.isDirectory_iff _).mp directory] at free
    cases free

include hold hnew hn h in
theorem kinds_of_rename (differ : source.location ≠ target.location) (m : Node)
    (hm : fs.tree.get? target.location = some m) : m.isDirectory = n.isDirectory := by
  obtain ⟨slash, within, above⟩ := guards_of_rename hold hnew hn h
  unfold rename at h
  simp only [hold, hnew, hn, bind, Except.bind, slash, within, above, Bool.false_eq_true,
    if_false, if_neg differ, hm] at h
  split at h
  · cases h
  rename_i onFile
  split at h
  · cases h
  rename_i onDirectory
  cases hd : n.isDirectory with
  | true => simpa [hd] using onFile
  | false => simpa [hd] using onDirectory

end

/-- What stands where an entry is renamed to, unless it is the entry itself. -/
def occupant (fs : FileSystem) (old new : Path) : Option Node :=
  match LastName.ofPath fs.tree old, LastName.ofPath fs.tree new with
  | .ok (some source), .ok (some target) =>
    if source.location = target.location then none else fs.tree.get? target.location
  | _, _ => none

theorem nodes_of_rename {fs fs' : FileSystem} {old new : Path} (closed : fs.tree.IsClosed)
    (h : fs.rename old new = .ok fs') :
    fs'.tree.IsClosed ∧
      (fs'.tree.nodes ++ (fs.occupant old new).toList).Perm fs.tree.nodes := by
  obtain ⟨source, target, n, hold, hnew, hn⟩ := names_of_rename h
  unfold occupant
  simp only [hold, hnew]
  rcases moves_of_rename hold hnew hn h with ⟨same, rfl⟩ | ⟨differ, empty, moved⟩
  · rw [if_pos same]
    exact ⟨closed, by simp⟩
  · rw [if_neg differ, moved]
    obtain ⟨-, within, -⟩ := guards_of_rename hold hnew hn h
    obtain ⟨-, -, -, -, -, parent, -⟩ := LastName.of_ofPath hnew
    have filled : ∀ last : LastName, last.location ≠ [] := by simp [LastName.location]
    have listed := (fs.tree.get?_eq_some_iff _ (filled source) n).mp hn
    have bare := closed.bare target.location empty
    have outside : ¬ source.location <+: target.parent := by
      rwa [← List.isPrefixOf_iff_prefix, Bool.not_eq_true]
    have apart : ¬ source.location <+: target.location := by
      intro above
      rcases List.prefix_concat_iff.mp above with same | above
      · exact differ same
      · exact outside above
    have onTop : target.location.dropLast = target.parent := by simp [LastName.location]
    refine ⟨?_, fs.tree.move_nodes_perm _ _ (filled source) (filled target) n listed bare apart⟩
    refine closed.move fs.tree _ _ (filled source) (filled target) n listed bare ?_ ?_
    · rwa [onTop]
    · rwa [onTop]

end SimpleFiles.FileSystem
