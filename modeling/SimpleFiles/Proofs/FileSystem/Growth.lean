import SimpleFiles.Proofs.FileSystem
import SimpleFiles.Proofs.FileSystem.Leading

/-! Calls under which the tree only grows: directories are made, files are written and
copied. What a call writes to is where its path leads afterwards. -/
namespace SimpleFiles.FileSystem

open FileTree

variable {changed : Location → Prop} {fs fs' : FileSystem}

theorem createDirectory_grows (p : Path) (h : fs.createDirectory p = .ok fs') :
    fs.tree.Grows changed fs'.tree := by
  unfold createDirectory at h
  simp only [bind, Except.bind] at h
  split at h
  · cases h
  split at h
  · cases h
  · rename_i last _
    split at h
    · cases h
    · rename_i vacant
      cases h
      rw [Bool.not_eq_true, contains_eq_false_iff] at vacant
      exact grows_insert fs.tree last.location .directory vacant

/-- What is true before anything is made, of a path when it is of its parent, and still when the
path is made a directory, is true after all on the way to a path is made. -/
theorem createAllUpTo_of_steps (fs : FileSystem) (reached : Path → FileSystem → Prop)
    (same : ∀ p, reached p fs)
    (up : ∀ p q fs', p.parent? = some q → reached q fs' → reached p fs')
    (made : ∀ p fs₁ fs', reached p fs₁ → fs₁.createDirectory p = .ok fs' → reached p fs')
    (depth : Nat) (p : Path) : reached p (createAllUpTo depth fs p).1 := by
  induction depth generalizing p with
  | zero => exact same p
  | succ depth ih =>
    rw [createAllUpTo]
    split
    · exact same p
    split
    · rename_i created
      exact made p fs _ (same p) created
    · split
      · exact same p
      · rename_i q parent
        have above := up p q _ parent (ih q)
        split
        · rename_i failed
          rwa [failed] at above
        · rename_i fs₁ done
          rw [done] at above
          split
          · rename_i created
            exact made p fs₁ _ above created
          · exact above
    · exact same p

theorem createAllUpTo_grows (depth : Nat) (fs : FileSystem) (p : Path) :
    fs.tree.Grows changed (createAllUpTo depth fs p).1.tree :=
  createAllUpTo_of_steps fs (fun _ fs' => fs.tree.Grows changed fs'.tree) (fun _ => .refl _ _)
    (fun _ _ _ _ grown => grown)
    (fun p _ _ grown created => grown.trans (createDirectory_grows p created)) depth p

theorem createAll_grows (changed : Location → Prop) (fs : FileSystem) (p : Path) :
    fs.tree.Grows changed (fs.createAll p).1.tree :=
  createAllUpTo_grows (p.depth + 1) fs p

theorem write_cases (p : Path) (content : ByteArray) (h : fs.write p content = .ok fs') :
    (∃ parent name, Place.ofPath fs.tree true p = .ok (.free parent name) ∧
        fs' = fs.add parent name (.file content)) ∨
      ∃ l old, Place.ofPath fs.tree true p = .ok (.entry l) ∧
        fs.tree.get? l = some (.file old) ∧ fs'.tree = fs.tree.insert l (.file content) := by
  unfold write at h
  simp only [bind, Except.bind] at h
  split at h
  · cases h
  split at h
  · cases h
  split at h
  · cases h
  rename_i place reached
  cases place with
  | free parent name =>
    cases h
    exact .inl ⟨parent, name, reached, rfl⟩
  | entry l =>
    simp only at h
    split at h
    · rename_i file
      cases h
      obtain ⟨old, found⟩ := (fs.tree.isFile_iff l).mp file
      exact .inr ⟨l, old, reached, found, rfl⟩
    · cases h

theorem write_grows (p : Path) (content : ByteArray) (h : fs.write p content = .ok fs') :
    fs.tree.Grows (fun l => Place.locate fs'.tree true p = .ok l) fs'.tree := by
  rcases write_cases p content h with ⟨parent, name, reached, rfl⟩ | ⟨l, old, reached, found, tree⟩
  · exact grows_insert fs.tree _ _ (Place.free_of_ofPath p parent name reached).2
  · have grown := grows_write (· = l) fs.tree l old content found rfl
    rw [tree]
    refine grown.mono ?_
    intro m here
    rw [here]
    exact Place.locate_of_grows grown p l ((Place.locate_iff_ofPath p l).mpr reached)

theorem copyFile_grows (source target : Path) (h : fs.copyFile source target = .ok fs') :
    fs.isFile source = true ∧
      fs.tree.Grows (fun l => Place.locate fs'.tree true target = .ok l) fs'.tree := by
  unfold copyFile at h
  simp only [bind, Except.bind] at h
  split at h
  · cases h
  rename_i l reached
  split at h
  · rename_i content found
    have file : fs.isFile source = true := by
      simp [isFile, reached, FileTree.isFile, found, Node.isFile]
    refine ⟨file, ?_⟩
    split at h
    · cases h
    rename_i emptied wrote
    have first := write_grows target .empty wrote
    split at h
    · cases h
      exact first
    · have second := write_grows target content h
      refine Grows.trans (first.mono ?_) second
      intro m hm
      exact Place.locate_of_grows second target m hm
  · cases h

theorem isFile_of_grows (grown : fs.tree.Grows changed fs'.tree) (p : Path)
    (h : fs.isFile p = true) : fs'.isFile p = true := by
  unfold isFile at h ⊢
  split at h
  · rename_i l reached
    rw [Place.locate_of_grows grown p l reached]
    exact grown.isFile l h
  · cases h

theorem isDirectory_of_grows (grown : fs.tree.Grows changed fs'.tree) (p : Path)
    (h : fs.isDirectory p = true) : fs'.isDirectory p = true := by
  unfold isDirectory at h ⊢
  split at h
  · rename_i l reached
    rw [Place.locate_of_grows grown p l reached]
    exact grown.isDirectory_of l h
  · cases h

theorem pathExists_of_grows (grown : fs.tree.Grows changed fs'.tree) (p : Path)
    (h : fs.pathExists p = true) : fs'.pathExists p = true := by
  obtain ⟨l, located⟩ := fs.exists_locate_of_pathExists p h
  exact fs'.pathExists_of_locate p l (Place.locate_of_grows grown p l located)

theorem readText_of_grows (grown : fs.tree.Grows (fun _ => False) fs'.tree) (p : Path)
    (text : String) (h : fs.readText p = .ok text) : fs'.readText p = .ok text := by
  unfold readText content at h ⊢
  cases located : Place.locate fs.tree true p with
  | error e => simp [located, bind, Except.bind] at h
  | ok l =>
    rw [Place.locate_of_grows grown p l located]
    simp only [located, bind, Except.bind] at h ⊢
    cases found : fs.tree.get? l with
    | none => simp [found, throw, throwThe, MonadExceptOf.throw] at h
    | some n =>
      rw [(grown l n found).resolve_right fun changed => changed.1]
      rwa [found] at h

end SimpleFiles.FileSystem
