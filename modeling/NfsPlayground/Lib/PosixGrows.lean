import NfsPlayground.Lib.PosixFiles

/-!
# Files that only grow

`Grows fs fs'` says that from `fs` to `fs'` every path keeps what it has and no file gets shorter. In a `Pool root b`
there are files of the byte `b` only, directly in the directory `root`; a write of that byte from an offset that is not
beyond the end keeps it a pool, however old the offset is.
-/

namespace Posix.Fs

variable {N : Type} [DecidableEq N]

structure Grows (fs fs' : Fs N) : Prop where
  get : ∀ {p x}, fs.get p = some x → fs'.get p = some x
  len : ∀ {p k}, fs.get p = some (.file k) → (fs.data k).length ≤ (fs'.data k).length

structure Pool (root : List N) (b : UInt8) (fs : Fs N) : Prop where
  tidy : fs.Tidy
  dir : fs.get root = some .dir
  notDir : ∀ n, fs.get (root ++ [n]) ≠ some .dir
  pure : ∀ {n k}, fs.get (root ++ [n]) = some (.file k) → ∀ x ∈ fs.data k, x = b

variable {fs fs' fs'' : Fs N} {root p : List N} {n : N} {b : UInt8} {k off len : Nat}

theorem Grows.refl (fs : Fs N) : Grows fs fs := ⟨fun h => h, fun _ => Nat.le_refl _⟩

theorem Grows.trans (h : Grows fs fs') (h' : Grows fs' fs'') : Grows fs fs'' :=
  ⟨fun hp => h'.get (h.get hp), fun hp => Nat.le_trans (h.len hp) (h'.len (h.get hp))⟩

/-- A file that is there stays, and is not shorter. -/
theorem Grows.content (h : Grows fs fs') {bytes : List UInt8} (hb : fs.content p = some bytes) :
    ∃ bytes', fs'.content p = some bytes' ∧ bytes.length ≤ bytes'.length := by
  obtain ⟨k, hk, rfl⟩ := get_of_content hb
  exact ⟨fs'.data k, content_of_get (h.get hk), h.len hk⟩

theorem Pool.content (h : Pool root b fs) {bytes : List UInt8} (hb : fs.content (root ++ [n]) = some bytes) :
    ∀ x ∈ bytes, x = b := by
  obtain ⟨k, hk, rfl⟩ := get_of_content hb
  exact h.pure hk

theorem Pool.of_mkdir {d : List N} (htidy : fs.Tidy) (hd : fs.get d = some .dir) (hnone : fs.get (d ++ [n]) = none) :
    ∃ fs', fs.mkdir (d ++ [n]) = (0, fs') ∧ Pool (d ++ [n]) b fs' ∧ Grows fs fs' := by
  obtain ⟨fs', hr, htidy', hcontent, hget⟩ := mkdir_tidy htidy hd hnone
  have hbelow : ∀ m, fs'.get (d ++ [n] ++ [m]) = none := by
    intro m
    rw [hget, if_neg (by simp)]
    exact htidy.free hnone [m]
  have hkeep : ∀ {p x}, fs.get p = some x → fs'.get p = some x := by
    intro p x hp
    rw [hget]
    split
    · rename_i heq
      rw [heq, hnone] at hp
      cases hp
    · exact hp
  refine ⟨fs', hr, ⟨htidy', ?_, fun m => ?_, fun {m k} hk => ?_⟩, hkeep, fun {p k} hp => ?_⟩
  · rw [hget]
    exact if_pos rfl
  · rw [hbelow]
    exact (Option.some_ne_none _).symm
  · rw [hbelow] at hk
    cases hk
  · have hsame := hcontent p
    rw [content_of_get hp, content_of_get (hkeep hp)] at hsame
    rw [Option.some.inj hsame]

/-- A file of the pool is there after an open that creates it where it is not. -/
theorem Pool.openCreat (h : Pool root b fs) (n : N) : ∃ k : Nat, ∃ fs', fs.openCreat (root ++ [n]) = ((k : Int), fs') ∧
    Pool root b fs' ∧ Grows fs fs' ∧ fs'.get (root ++ [n]) = some (.file k) := by
  have habove : fs.above (root ++ [n]) = none := above_of_dir (h.tidy.dir h.dir) n
  cases hget : fs.get (root ++ [n]) with
  | some x =>
    cases x with
    | dir => exact absurd hget (h.notDir n)
    | file k =>
      refine ⟨k, fs, ?_, h, Grows.refl fs, hget⟩
      unfold Fs.openCreat
      rw [habove, hget]
  | none =>
    obtain ⟨fs', hr, hat, hdata, hb⟩ := create_new h.tidy h.dir hget
    have hopen : fs.openCreat (root ++ [n]) = fs.create (root ++ [n]) := by
      unfold Fs.openCreat
      rw [habove, hget]
    -- the tree is the one before with the new file
    have helse : ∀ q, q ≠ root ++ [n] → fs'.get q = fs.get q := by
      intro q hq
      have hput : fs' = { fs.put (root ++ [n]) (.file fs.next) with
          data := Function.update fs.data fs.next [], next := fs.next + 1 } := by
        have hcreate := hr
        unfold Fs.create at hcreate
        rw [habove, hget] at hcreate
        exact (congrArg Prod.snd hcreate).symm
      rw [hput]
      exact (get_put _ _ _).trans (if_neg hq)
    have hlt : ∀ {q k}, fs.get q = some (.file k) → fs'.data k = fs.data k := by
      intro q k hk
      rw [hdata, Function.update_of_ne (Nat.ne_of_lt (h.tidy.lt hk))]
    have hkeep : ∀ {q x}, fs.get q = some x → fs'.get q = some x := by
      intro q x hq
      rw [helse q fun heq => by rw [heq, hget] at hq; cases hq]
      exact hq
    refine ⟨fs.next, fs', hopen.trans hr, ⟨hb.tidy, hkeep h.dir, fun m hm => ?_, fun {m k} hk => ?_⟩,
      ⟨hkeep, fun hq => by rw [hlt hq]⟩, hat⟩
    · exact h.notDir m ((hb.dirs _).1 hm)
    · by_cases hm : root ++ [m] = root ++ [n]
      · rw [hm, hat] at hk
        cases hk
        rw [hdata, Function.update_self]
        nofun
      · rw [helse _ hm] at hk
        rw [hlt hk]
        exact h.pure hk

omit [DecidableEq N] in
theorem patch_within {bytes : List UInt8} (hoff : off ≤ bytes.length) (new : List UInt8) :
    patch bytes off new = bytes.take off ++ new ++ bytes.drop (off + new.length) := by
  unfold patch
  rw [Nat.sub_eq_zero_of_le hoff, List.replicate_zero, List.append_nil]

omit [DecidableEq N] in
theorem length_patch {bytes : List UInt8} (hoff : off ≤ bytes.length) (new : List UInt8) :
    (patch bytes off new).length = max bytes.length (off + new.length) := by
  rw [patch_within hoff, List.length_append, List.length_append, List.length_take, List.length_drop]
  omega

/-- A write of the byte from an offset that the file has reached. -/
theorem Pool.write (h : Pool root b fs) (hk : fs.get (root ++ [n]) = some (.file k)) (hoff : off ≤ (fs.data k).length)
    (len : Nat) : ∃ fs', fs.write k off (List.replicate len b) = ((len : Int), fs') ∧ Pool root b fs' ∧ Grows fs fs' ∧
      off + len ≤ (fs'.data k).length := by
  have hlen := length_patch hoff (List.replicate len b)
  rw [List.length_replicate] at hlen
  have hself : (fs.setData k (patch (fs.data k) off (List.replicate len b))).data k =
      patch (fs.data k) off (List.replicate len b) := Function.update_self ..
  have helse : ∀ l, l ≠ k → (fs.setData k (patch (fs.data k) off (List.replicate len b))).data l = fs.data l :=
    fun l hl => Function.update_of_ne hl ..
  refine ⟨fs.setData k (patch (fs.data k) off (List.replicate len b)), ?_,
    ⟨h.tidy.congr (fun _ => rfl) (Nat.le_refl _), h.dir, h.notDir, fun {m l} hl => ?_⟩,
    ⟨fun hp => hp, fun {q l} _ => ?_⟩, ?_⟩
  · unfold Fs.write
    rw [if_pos (h.tidy.lt hk), List.length_replicate]
  · by_cases hlk : l = k
    · rw [hlk, hself, patch_within hoff]
      intro x hx
      rw [List.mem_append, List.mem_append] at hx
      rcases hx with (hx | hx) | hx
      · exact h.pure hk x (List.mem_of_mem_take hx)
      · exact List.eq_of_mem_replicate hx
      · exact h.pure hk x (List.mem_of_mem_drop hx)
    · rw [helse l hlk]
      exact h.pure hl
  · by_cases hlk : l = k
    · rw [hlk, hself, hlen]
      exact Nat.le_max_left _ _
    · rw [helse l hlk]
  · rw [hself, hlen]
    exact Nat.le_max_right _ _

theorem Pool.openFile (h : Pool root b fs) (hk : fs.get (root ++ [n]) = some (.file k)) :
    fs.openFile (root ++ [n]) = k :=
  openFile_content h.tidy h.dir hk

/-- A path of the pool resolves where it has a file. -/
theorem Pool.resolves_iff (h : Pool root b fs) (n : N) :
    fs.resolves (root ++ [n]) = true ↔ ∃ k, fs.get (root ++ [n]) = some (.file k) := by
  unfold Fs.resolves
  rw [above_of_dir (h.tidy.dir h.dir) n]
  cases hget : fs.get (root ++ [n]) with
  | none => exact iff_of_false nofun nofun
  | some x =>
    cases x with
    | dir => exact absurd hget (h.notDir n)
    | file k => exact iff_of_true rfl ⟨k, rfl⟩

end Posix.Fs
