import NfsPlayground.Lib.PosixFiles

/-!
# A path of directories with files at its end

`Spine base top deep files` says what is at `top` in the directory `base` and below: the directories on the path `deep`
and, in the last of them, the files of the names `files`. What the calls by path do to such a tree is said of `deep` and
`files`.
-/

namespace Posix.Fs

variable {N : Type} [DecidableEq N]

structure Spine (base : List N) (top : N) (deep : List N) (files : N → Prop) (fs : Fs N) : Prop where
  tidy : fs.Tidy
  mount : fs.get base = some .dir
  dirs : ∀ t, [top] <+: t → (fs.get (base ++ t) = some .dir ↔ t <+: deep)
  held : ∀ t, [top] <+: t → (fs.content (base ++ t) ≠ none ↔ ∃ n, files n ∧ t = deep ++ [n])

namespace Spine

variable {base deep t u v : List N} {top n m a b : N} {files files' : N → Prop} {fs fs' : Fs N}

omit [DecidableEq N] in
theorem snoc_not_prefix : ¬ deep ++ [n] <+: deep := fun h => absurd h.length_le (by simp)

/-- Nothing is at a path that is neither. -/
theorem get_none (h : Spine base top deep files fs) (ht : [top] <+: t) (hd : ¬ t <+: deep)
    (hf : ∀ n, files n → t ≠ deep ++ [n]) : fs.get (base ++ t) = none := by
  rw [get_none_iff]
  refine ⟨fun hdir => hd ((h.dirs t ht).1 hdir), ?_⟩
  by_contra hne
  obtain ⟨n, hn, rfl⟩ := (h.held t ht).1 hne
  exact hf n hn rfl

theorem get_deep (h : Spine base top deep files fs) (hd : [top] <+: deep) : fs.get (base ++ deep) = some .dir :=
  (h.dirs deep hd).2 (List.prefix_refl _)

theorem get_file (h : Spine base top deep files fs) (hd : [top] <+: deep) (hn : files n) :
    ∃ k, fs.get (base ++ deep ++ [n]) = some (.file k) := by
  have hne := (h.held (deep ++ [n]) (hd.trans (List.prefix_append _ _))).2 ⟨n, hn, rfl⟩
  obtain ⟨bytes, hb⟩ := Option.ne_none_iff_exists'.1 hne
  obtain ⟨k, hk, -⟩ := get_of_content hb
  exact ⟨k, by rw [List.append_assoc]; exact hk⟩

theorem not_dir (h : Spine base top deep files fs) (hd : [top] <+: deep) (n : N) :
    fs.get (base ++ deep ++ [n]) ≠ some .dir := by
  intro hdir
  rw [List.append_assoc] at hdir
  exact snoc_not_prefix ((h.dirs _ (hd.trans (List.prefix_append _ _))).1 hdir)

theorem get_free (h : Spine base top deep files fs) (hd : [top] <+: deep) (hn : ¬ files n) :
    fs.get (base ++ deep ++ [n]) = none := by
  rw [List.append_assoc]
  refine h.get_none (hd.trans (List.prefix_append _ _)) snoc_not_prefix fun m hm heq => hn ?_
  rwa [(List.cons.inj (List.append_cancel_left heq)).1]

/-- A tree with the same at every path. -/
theorem congr_get (h : Spine base top deep files fs) (hget : ∀ p, fs'.get p = fs.get p) (hnext : fs.next ≤ fs'.next) :
    Spine base top deep files fs' := by
  have hcontent : ∀ p, fs'.content p ≠ none ↔ fs.content p ≠ none := by
    intro p
    unfold content
    rw [hget]
    split <;> simp
  refine ⟨h.tidy.congr hget hnext, (hget _).trans h.mount, fun t ht => ?_, fun t ht => ?_⟩
  · rw [hget]
    exact h.dirs t ht
  · rw [hcontent]
    exact h.held t ht

theorem congr_files (h : Spine base top deep files fs) (hf : ∀ n, files n ↔ files' n) :
    Spine base top deep files' fs :=
  ⟨h.tidy, h.mount, h.dirs, fun t ht => (h.held t ht).trans (exists_congr fun n => and_congr_left' (hf n))⟩

/-- Where the directory at the top could be made, it was not there. -/
theorem of_mkdir (htidy : fs.Tidy) (h : (fs.mkdir (base ++ [top])).1 = 0) (hfiles : ∀ n, ¬ files n) :
    Spine base top [] files fs := by
  unfold Fs.mkdir at h
  split at h
  · rename_i habove
    exact absurd (Int.neg_eq_zero.1 h) (above_ne_zero habove)
  · cases h
  · rename_i habove hnone
    have hup : fs.get base = some .dir := by
      unfold above at habove
      rw [List.dropLast_concat, List.findSome?_eq_none_iff] at habove
      have hbase := habove base ((List.mem_inits base base).2 (List.prefix_refl _))
      split at hbase
      · assumption
      · cases hbase
      · cases hbase
    have hfree : ∀ t, [top] <+: t → fs.get (base ++ t) = none := by
      rintro _ ⟨t, rfl⟩
      rw [← List.append_assoc]
      exact htidy.free hnone t
    refine ⟨htidy, hup, fun t ht => ?_, fun t ht => ?_⟩
    · rw [hfree t ht]
      refine iff_of_false (Option.some_ne_none _).symm fun hp => ?_
      rw [List.prefix_nil.1 hp] at ht
      exact absurd ht.length_le (by simp)
    · rw [(get_none_iff.1 (hfree t ht)).2]
      refine iff_of_false (fun hne => hne rfl) ?_
      rintro ⟨n, hn, -⟩
      exact hfiles n hn

/-! ## Files at the end -/

/-- Calls that only change contents in the last directory. -/
theorem becomes (h : Spine base top deep files fs) {c : List N → Option (List UInt8)} (hb : Becomes fs fs' c)
    (hc : ∀ t, [top] <+: t → (c (base ++ t) ≠ none ↔ ∃ n, files' n ∧ t = deep ++ [n])) :
    Spine base top deep files' fs' := by
  refine ⟨hb.tidy, (hb.dirs _).2 h.mount, fun t ht => (hb.dirs _).trans (h.dirs t ht), fun t ht => ?_⟩
  rw [hb.content]
  exact hc t ht

theorem create (h : Spine base top deep files fs) (hd : [top] <+: deep) (n : N) : ∃ k : Nat, ∃ fs',
    fs.create (base ++ deep ++ [n]) = ((k : Int), fs') ∧ Spine base top deep (fun m => m = n ∨ files m) fs' := by
  by_cases hn : files n
  · obtain ⟨k, hk⟩ := h.get_file hd hn
    have hsame : Spine base top deep files (fs.setData k []) := h.congr_get (fun _ => rfl) (Nat.le_refl _)
    refine ⟨k, fs.setData k [], ?_, hsame.congr_files fun m => ?_⟩
    · unfold Fs.create
      rw [above_of_dir (h.tidy.dir (h.get_deep hd)) n, hk]
      rfl
    · exact ⟨Or.inr, fun hm => hm.elim (fun heq => heq ▸ hn) id⟩
  · obtain ⟨fs', hr, -, -, hb⟩ := create_new h.tidy (h.get_deep hd) (h.get_free hd hn)
    refine ⟨fs.next, fs', hr, h.becomes hb fun t ht => ?_⟩
    rw [List.append_assoc]
    by_cases htn : t = deep ++ [n]
    · subst htn
      rw [Function.update_self]
      exact iff_of_true (by simp) ⟨n, Or.inl rfl, rfl⟩
    · rw [Function.update_of_ne fun heq => htn (List.append_cancel_left heq), h.held t ht]
      refine exists_congr fun m => and_congr_left fun heq => ⟨Or.inr, fun hm => hm.resolve_left ?_⟩
      rintro rfl
      exact htn heq

/-- The name is not there any more; the call succeeds where it was. -/
theorem unlink (h : Spine base top deep files fs) (hd : [top] <+: deep) (n : N) :
    Spine base top deep (fun m => files m ∧ m ≠ n) (fs.unlink (base ++ deep ++ [n])).2 ∧
      ((fs.unlink (base ++ deep ++ [n])).1 = 0 ↔ files n) := by
  by_cases hn : files n
  · obtain ⟨k, hk⟩ := h.get_file hd hn
    obtain ⟨fs', hr, hb⟩ := unlink_content h.tidy (h.get_deep hd) hk
    rw [hr]
    refine ⟨h.becomes hb fun t ht => ?_, iff_of_true rfl hn⟩
    rw [List.append_assoc]
    by_cases htn : t = deep ++ [n]
    · subst htn
      rw [Function.update_self]
      refine iff_of_false (fun hne => hne rfl) ?_
      rintro ⟨m, ⟨-, hm⟩, heq⟩
      exact hm (List.cons.inj (List.append_cancel_left heq)).1.symm
    · rw [Function.update_of_ne fun heq => htn (List.append_cancel_left heq), h.held t ht]
      refine exists_congr fun m => and_congr_left fun heq => ⟨fun hm => ⟨hm, ?_⟩, And.left⟩
      rintro rfl
      exact htn heq
  · obtain ⟨hret, hsame⟩ := unlink_absent (h.get_free hd hn)
    rw [hsame]
    refine ⟨h.congr_files fun m => ⟨fun hm => ⟨hm, ?_⟩, And.left⟩, iff_of_false hret hn⟩
    rintro rfl
    exact hn hm

theorem rename (h : Spine base top deep files fs) (hd : [top] <+: deep) (hn : files n) (m : N) : ∃ fs',
    fs.rename (base ++ deep ++ [n]) (base ++ deep ++ [m]) = (0, fs') ∧
      Spine base top deep (fun r => r = m ∨ (files r ∧ r ≠ n)) fs' := by
  obtain ⟨k, hk⟩ := h.get_file hd hn
  have hdir := h.get_deep hd
  by_cases hnm : n = m
  · subst hnm
    refine ⟨fs, ?_, h.congr_files fun r => ⟨fun hr => ?_, ?_⟩⟩
    · unfold Fs.rename
      rw [above_of_dir (h.tidy.dir hdir) n, hk]
      dsimp only
      rw [if_pos rfl]
    · exact Classical.or_iff_not_imp_left.2 fun hne => ⟨hr, hne⟩
    · rintro (rfl | ⟨hr, -⟩)
      · exact hn
      · exact hr
  · have hne : base ++ deep ++ [n] ≠ base ++ deep ++ [m] := fun heq =>
      hnm (List.cons.inj (List.append_cancel_left heq)).1
    obtain ⟨fs', hr, hb⟩ := rename_content h.tidy hdir hdir hk (h.not_dir hd m) hne
    refine ⟨fs', hr, h.becomes hb fun t ht => ?_⟩
    rw [List.append_assoc, List.append_assoc]
    by_cases htn : t = deep ++ [n]
    · subst htn
      rw [Function.update_self]
      refine iff_of_false (fun hf => hf rfl) ?_
      rintro ⟨r, hr', heq⟩
      obtain rfl := (List.cons.inj (List.append_cancel_left heq)).1
      exact hr'.elim hnm fun h' => h'.2 rfl
    · rw [Function.update_of_ne fun heq => htn (List.append_cancel_left heq)]
      by_cases htm : t = deep ++ [m]
      · subst htm
        rw [Function.update_self]
        exact iff_of_true (by simp) ⟨m, Or.inl rfl, rfl⟩
      · rw [Function.update_of_ne fun heq => htm (List.append_cancel_left heq), h.held t ht]
        refine exists_congr fun r => and_congr_left fun heq => ⟨fun hr' => Or.inr ⟨hr', ?_⟩, ?_⟩
        · rintro rfl
          exact htn heq
        · rintro (rfl | ⟨hr', -⟩)
          · exact absurd heq htm
          · exact hr'

/-! ## Directories -/

/-- The path gets longer by a directory. -/
theorem mkdir (h : Spine base top deep files fs) (hfiles : ∀ n, ¬ files n) (hdir : fs.get (base ++ deep) = some .dir)
    (htop : [top] <+: deep ++ [n]) :
    ∃ fs', fs.mkdir (base ++ deep ++ [n]) = (0, fs') ∧ Spine base top (deep ++ [n]) files fs' := by
  have hnone : fs.get (base ++ deep ++ [n]) = none := by
    rw [List.append_assoc]
    exact h.get_none htop snoc_not_prefix fun m hm => absurd hm (hfiles m)
  obtain ⟨fs', hr, htidy, hcontent, hget⟩ := mkdir_tidy h.tidy hdir hnone
  refine ⟨fs', hr, htidy, ?_, fun t ht => ?_, fun t ht => ?_⟩
  · rw [hget]
    split
    · rfl
    · exact h.mount
  · rw [hget, List.append_assoc, List.prefix_concat_iff]
    by_cases htn : t = deep ++ [n]
    · rw [htn, if_pos rfl]
      exact iff_of_true rfl (Or.inl rfl)
    · rw [if_neg fun heq => htn (List.append_cancel_left heq), h.dirs t ht]
      exact (or_iff_right htn).symm
  · have hempty : ∀ l : List N, ¬ ∃ m, files m ∧ t = l ++ [m] := by
      rintro l ⟨m, hm, -⟩
      exact hfiles m hm
    rw [hcontent, h.held t ht]
    exact iff_of_false (hempty deep) (hempty (deep ++ [n]))

/-- The empty directory at the end is removed. -/
theorem rmdir (h : Spine base top (deep ++ [n]) files fs) (hfiles : ∀ n, ¬ files n) (htop : [top] <+: deep ++ [n])
    (hdir : fs.get (base ++ deep) = some .dir) : Spine base top deep files (fs.rmdir (base ++ deep ++ [n])).2 := by
  have hself : fs.get (base ++ deep ++ [n]) = some .dir := by
    rw [List.append_assoc]
    exact h.get_deep htop
  have hempty : ∀ t, t ≠ [] → fs.get (base ++ deep ++ [n] ++ t) = none := by
    intro t ht
    rw [List.append_assoc base, List.append_assoc]
    refine h.get_none (htop.trans (List.prefix_append _ _)) (fun hp => ?_) fun m hm => absurd hm (hfiles m)
    have hlen := hp.length_le
    rw [List.length_append] at hlen
    exact ht (List.length_eq_zero_iff.1 (by omega))
  obtain ⟨fs', hr, htidy, hget⟩ := rmdir_empty h.tidy hdir hself hempty
  have hcontent : ∀ q, (fs.rmdir (base ++ deep ++ [n])).2.content q = fs.content q := rmdir_content _
  rw [hr] at hcontent ⊢
  refine ⟨htidy, ?_, fun t ht => ?_, fun t ht => ?_⟩
  · rw [hget, if_neg, h.mount]
    rw [List.append_assoc]
    simp
  · rw [hget, List.append_assoc]
    by_cases htn : t = deep ++ [n]
    · rw [htn, if_pos rfl]
      exact iff_of_false (by simp) snoc_not_prefix
    · rw [if_neg fun heq => htn (List.append_cancel_left heq), h.dirs t ht, List.prefix_concat_iff]
      exact or_iff_right htn
  · rw [hcontent, h.held t ht]
    exact iff_of_false (fun ⟨m, hm, _⟩ => hfiles m hm) fun ⟨m, hm, _⟩ => hfiles m hm

/-- A path that is not of the tree is not removed. -/
theorem rmdir_absent (h : Spine base top deep files fs) (ht : [top] <+: t) (hd : ¬ t <+: deep)
    (hfiles : ∀ n, files n → t ≠ deep ++ [n]) : (fs.rmdir (base ++ t)).2 = fs :=
  Fs.rmdir_absent (h.get_none ht hd hfiles)

/-- With a file at the end no directory is removed. -/
theorem rmdir_held (h : Spine base top deep files fs) (hd : [top] <+: deep) (ht : [top] <+: t) (hn : files n) :
    (fs.rmdir (base ++ t)).2 = fs := by
  by_cases hp : t <+: deep
  · obtain ⟨s, rfl⟩ := hp
    obtain ⟨k, hk⟩ := h.get_file hd hn
    rw [← List.append_assoc, List.append_assoc (base ++ t)] at hk
    exact rmdir_full (by simp) hk
  · by_cases hfile : ∃ m, files m ∧ t = deep ++ [m]
    · obtain ⟨m, hm, rfl⟩ := hfile
      obtain ⟨k, hk⟩ := h.get_file hd hm
      rw [List.append_assoc] at hk
      unfold Fs.rmdir
      rw [hk]
      cases fs.above (base ++ (deep ++ [m])) <;> rfl
    · exact h.rmdir_absent ht hp fun m hm heq => hfile ⟨m, hm, heq⟩

/-- The path once a directory is to be removed: only the end of it goes. -/
def trimmed (deep t : List N) : List N := if t = deep then deep.dropLast else deep

/-- Without files only the end of the path is removed. -/
theorem rmdir_any (h : Spine base top deep files fs) (hfiles : ∀ n, ¬ files n) (ht : [top] <+: t) :
    Spine base top (trimmed deep t) files (fs.rmdir (base ++ t)).2 := by
  unfold trimmed
  split
  · rename_i heq
    subst heq
    rcases List.eq_nil_or_concat t with rfl | ⟨u, n, rfl⟩
    · exact absurd ht.length_le (by simp)
    · rw [List.concat_eq_append] at h ht ⊢
      rw [List.dropLast_concat, ← List.append_assoc]
      refine h.rmdir hfiles ht ?_
      rcases u with _ | ⟨c, u⟩
      · rw [List.append_nil]
        exact h.mount
      · rw [List.cons_append, List.cons_prefix_cons] at ht
        refine (h.dirs _ ?_).2 (List.prefix_append _ _)
        rw [List.cons_prefix_cons]
        exact ⟨ht.1, List.nil_prefix⟩
  · rename_i hne
    by_cases hp : t <+: deep
    · obtain ⟨s, rfl⟩ := hp
      have hs : s ≠ [] := by
        rintro rfl
        exact hne (List.append_nil t).symm
      have hdir := h.get_deep (ht.trans (List.prefix_append t s))
      rw [← List.append_assoc] at hdir
      rw [rmdir_full hs hdir]
      exact h
    · rw [h.rmdir_absent ht hp fun n hn => absurd hn (hfiles n)]
      exact h

theorem rmdirs (hfiles : ∀ n, ¬ files n) : ∀ (ts : List (List N)) {deep : List N} {fs : Fs N},
    (∀ t ∈ ts, [top] <+: t) → Spine base top deep files fs →
    Spine base top (ts.foldl trimmed deep) files (ts.foldl (fun fs t => (fs.rmdir (base ++ t)).2) fs)
  | [], _, _, _, h => h
  | _ :: ts, _, _, hts, h => rmdirs hfiles ts (fun t ht => hts t (List.mem_cons_of_mem _ ht))
      (h.rmdir_any hfiles (hts _ List.mem_cons_self))

theorem rmdirs_held (hd : [top] <+: deep) (hn : files n) (h : Spine base top deep files fs) : ∀ ts : List (List N),
    (∀ t ∈ ts, [top] <+: t) → ts.foldl (fun fs t => (fs.rmdir (base ++ t)).2) fs = fs
  | [], _ => rfl
  | t :: ts, hts => by
    rw [List.foldl_cons, h.rmdir_held hd (hts t List.mem_cons_self) hn]
    exact rmdirs_held hd hn h ts fun t ht => hts t (List.mem_cons_of_mem _ ht)

/-- A directory of the path gets another name. -/
theorem rename_dir (h : Spine base top (u ++ [a] ++ v) files fs) (htop : [top] <+: u) (hab : a ≠ b) : ∃ fs',
    fs.rename (base ++ u ++ [a]) (base ++ u ++ [b]) = (0, fs') ∧ Spine base top (u ++ [b] ++ v) files fs' := by
  have hpre : ∀ {c e : N} {s : List N}, u ++ [c] <+: u ++ [e] ++ s ↔ c = e := by
    intro c e s
    rw [List.append_assoc, List.prefix_append_right_inj, List.singleton_append, List.cons_prefix_cons]
    simp
  have hu : fs.get (base ++ u) = some .dir :=
    (h.dirs u htop).2 ((List.prefix_append u [a]).trans (List.prefix_append _ v))
  have hdir : fs.get (base ++ u ++ [a]) = some .dir := by
    rw [List.append_assoc]
    exact (h.dirs _ (htop.trans (List.prefix_append _ _))).2 (List.prefix_append _ v)
  have hnone : fs.get (base ++ u ++ [b]) = none := by
    rw [List.append_assoc]
    refine h.get_none (htop.trans (List.prefix_append _ _)) (fun hp => hab (hpre.1 hp).symm) fun n _ heq => ?_
    have hp : u ++ [a] <+: u ++ [b] ++ [] := by
      rw [List.append_nil, heq, List.append_assoc (u ++ [a])]
      exact List.prefix_append _ _
    exact hab (hpre.1 hp)
  have hnot : ¬ base ++ u ++ [a] <+: base ++ u ++ [b] := by
    rw [List.append_assoc, List.append_assoc, List.prefix_append_right_inj]
    intro hp
    exact hab (hpre.1 (hp.trans (List.prefix_append _ [])))
  obtain ⟨fs', hr, htidy, hdata, hto, helse⟩ := rename_dir_tidy h.tidy hu hu hdir hnone hnot
  have hcontent : ∀ {p q}, fs'.get p = fs.get q → fs'.content p = fs.content q := by
    intro p q hpq
    unfold content
    rw [hpq, hdata]
  have hbase : ∀ {c : N} {t : List N}, base ++ u ++ [c] <+: base ++ t ↔ u ++ [c] <+: t := by
    intro c t
    rw [List.append_assoc, List.prefix_append_right_inj]
  -- below the new name is what was below the old one; nothing is below that; and the rest stays
  have hcases : ∀ t, (∃ s, t = u ++ [b] ++ s ∧ fs'.get (base ++ t) = fs.get (base ++ (u ++ [a] ++ s))) ∨
      (u ++ [a] <+: t ∧ fs'.get (base ++ t) = none) ∨
      (¬ u ++ [b] <+: t ∧ ¬ u ++ [a] <+: t ∧ fs'.get (base ++ t) = fs.get (base ++ t)) := by
    intro t
    by_cases hb : u ++ [b] <+: t
    · obtain ⟨s, rfl⟩ := hb
      refine Or.inl ⟨s, rfl, ?_⟩
      rw [← List.append_assoc, ← List.append_assoc, ← List.append_assoc, ← List.append_assoc]
      exact hto s
    · have hget := helse (base ++ t) fun hp => hb (hbase.1 hp)
      by_cases ha : u ++ [a] <+: t
      · rw [if_pos (hbase.2 ha)] at hget
        exact Or.inr (Or.inl ⟨ha, hget⟩)
      · rw [if_neg fun hp => ha (hbase.1 hp)] at hget
        exact Or.inr (Or.inr ⟨hb, ha, hget⟩)
  have hmove : ∀ {c : N} {t : List N}, ¬ u ++ [c] <+: t → t <+: u ++ [c] ++ v → t <+: u := by
    intro c t hnp hp
    rcases List.prefix_or_prefix_of_prefix hp (List.prefix_append (u ++ [c]) v) with h' | h'
    · exact (List.prefix_concat_iff.1 h').resolve_left fun heq => hnp (heq ▸ List.prefix_refl _)
    · exact absurd h' hnp
  refine ⟨fs', hr, htidy, ?_, fun t ht => ?_, fun t ht => ?_⟩
  · have hself : ∀ c : N, ¬ base ++ u ++ [c] <+: base := fun c hp => absurd hp.length_le (by simp)
    rw [helse base (hself b), if_neg (hself a), h.mount]
  · rcases hcases t with ⟨s, rfl, hget⟩ | ⟨ha, hget⟩ | ⟨hb, ha, hget⟩
    · rw [hget, h.dirs _ (htop.trans ((List.prefix_append u [a]).trans (List.prefix_append _ s))),
        List.prefix_append_right_inj, List.prefix_append_right_inj]
    · rw [hget]
      refine iff_of_false nofun fun hp => hab (hpre.1 (ha.trans hp))
    · rw [hget, h.dirs t ht]
      have hup : ∀ c : N, t <+: u → t <+: u ++ [c] ++ v := fun c hp =>
        hp.trans ((List.prefix_append u [c]).trans (List.prefix_append _ v))
      exact ⟨fun hp => hup b (hmove ha hp), fun hp => hup a (hmove hb hp)⟩
  · rcases hcases t with ⟨s, rfl, hget⟩ | ⟨ha, hget⟩ | ⟨hb, ha, hget⟩
    · rw [hcontent hget, h.held _ (htop.trans ((List.prefix_append u [a]).trans (List.prefix_append _ s)))]
      refine exists_congr fun n => and_congr_right fun _ => ?_
      rw [List.append_assoc (u ++ [a]), List.append_assoc (u ++ [b]), List.append_cancel_left_eq,
        List.append_cancel_left_eq]
    · rw [(get_none_iff.1 hget).2]
      refine iff_of_false (fun hne => hne rfl) fun ⟨n, _, heq⟩ => hab ?_
      rw [heq, List.append_assoc] at ha
      exact hpre.1 ha
    · rw [hcontent hget, h.held t ht]
      have hfar : ∀ {c n}, ¬ u ++ [c] <+: t → t ≠ u ++ [c] ++ v ++ [n] := by
        rintro c n hnp rfl
        rw [List.append_assoc] at hnp
        exact hnp (List.prefix_append _ _)
      exact iff_of_false (fun ⟨n, _, heq⟩ => hfar ha heq) fun ⟨n, _, heq⟩ => hfar hb heq

end Spine

end Posix.Fs
