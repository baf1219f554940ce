import OpcodeTables.Sha256

/-!
# Padding, blocks and schedules

The padding of a message fills whole blocks, and two messages of a length that eight bytes can tell are padded
differently (`padded_injective`). The digest is what is left after one compression for each of these blocks, in their
order (`digest_eq_foldl`), and has 32 bytes (`length_digest`). The schedule of a block begins with its words, and each
word after them is a sum of four words before (`schedule_recurrence`), one for each of the 64 rounds (`schedule_block`).
-/

namespace OpcodeTables.Sha256

/-! ### Padding -/

theorem mod_eq_of_bigEndian_eq {n v w : Nat} (h : bigEndian n v = bigEndian n w) : v % 256 ^ n = w % 256 ^ n := by
  induction n with
  | zero => simp [Nat.mod_one]
  | succ n ih =>
    obtain ⟨hhead, htail⟩ := List.cons.inj h
    have hbyte : v / 256 ^ n % 256 = w / 256 ^ n % 256 := by simpa using congrArg UInt8.toNat hhead
    rw [Nat.mod_pow_succ, Nat.mod_pow_succ, ih htail, hbyte]

/-- The length is written at the end, so that it can be told from the padded message. -/
theorem padded_injective {m m' : List UInt8} (hm : m.length < 2 ^ 61) (hm' : m'.length < 2 ^ 61)
    (h : padded m = padded m') : m = m' := by
  obtain ⟨hfront, hlength⟩ := List.append_inj' h (by simp [length_bigEndian])
  have heq : m.length = m'.length := by
    have hmod := mod_eq_of_bigEndian_eq hlength
    rw [Nat.mod_eq_of_lt (by omega), Nat.mod_eq_of_lt (by omega)] at hmod
    omega
  exact (List.append_inj hfront heq).1

/-! ### Blocks -/

/-- Bytes that fill whole blocks. -/
theorem exists_blocks (n : Nat) (bs : List UInt8) (h : bs.length = 64 * n) :
    ∃ blocks : List (List UInt8), blocks.length = n ∧ bs = blocks.flatten ∧ ∀ b ∈ blocks, b.length = 64 := by
  induction n generalizing bs with
  | zero => exact ⟨[], rfl, List.length_eq_zero_iff.1 h, by simp⟩
  | succ n ih =>
    have htake : (bs.take 64).length = 64 := by
      rw [List.length_take, h]
      omega
    have hrest : (bs.drop 64).length = 64 * n := by
      rw [List.length_drop, h]
      omega
    obtain ⟨blocks, hn, hdrop, hblocks⟩ := ih (bs.drop 64) hrest
    refine ⟨bs.take 64 :: blocks, congrArg (· + 1) hn, ?_, List.forall_mem_cons.2 ⟨htake, hblocks⟩⟩
    rw [List.flatten_cons, ← hdrop, List.take_append_drop]

theorem absorb_flatten {blocks : List (List UInt8)} (h : ∀ b ∈ blocks, b.length = 64) (s : State) :
    absorb blocks.length s blocks.flatten = blocks.foldl compress s := by
  induction blocks generalizing s with
  | nil => rfl
  | cons b blocks ih =>
    obtain ⟨hb, hblocks⟩ := List.forall_mem_cons.1 h
    rw [List.length_cons, absorb, List.flatten_cons, List.take_left' hb, List.drop_left' hb, ih hblocks,
      List.foldl_cons]

/-- The words of a state, in their order. -/
def State.bytes (s : State) : List UInt8 :=
  [s.a, s.b, s.c, s.d, s.e, s.f, s.g, s.h].flatMap fun w => bigEndian 4 w.toNat

/-- The digest compresses the blocks of the padded message one after the other. -/
theorem digest_eq_foldl (m : List UInt8) :
    ∃ blocks : List (List UInt8), padded m = blocks.flatten ∧ (∀ b ∈ blocks, b.length = 64) ∧
      digest m = (blocks.foldl compress initial).bytes := by
  have hlength : (padded m).length = 64 * ((padded m).length / 64) := by
    have := length_padded m
    omega
  obtain ⟨blocks, hn, hflatten, hblocks⟩ := exists_blocks _ _ hlength
  refine ⟨blocks, hflatten, hblocks, ?_⟩
  rw [← absorb_flatten hblocks, hn, ← hflatten]
  rfl

theorem length_digest (m : List UInt8) : (digest m).length = 32 := by
  simp [digest, length_bigEndian]

/-- The digest of no bytes. -/
example : digest [] =
    [0xe3, 0xb0, 0xc4, 0x42, 0x98, 0xfc, 0x1c, 0x14, 0x9a, 0xfb, 0xf4, 0xc8, 0x99, 0x6f, 0xb9, 0x24,
     0x27, 0xae, 0x41, 0xe4, 0x64, 0x9b, 0x93, 0x4c, 0xa4, 0x95, 0x99, 0x1b, 0x78, 0x52, 0xb8, 0x55] := by
  decide +kernel

/-! ### Schedules -/

theorem length_words {n : Nat} {bs : List UInt8} (h : bs.length = 4 * n) : (words bs).length = n := by
  induction n generalizing bs with
  | zero => simp [List.length_eq_zero_iff.1 h, words]
  | succ n ih =>
    obtain ⟨a, b, c, d, bs, rfl⟩ : ∃ a b c d bs', bs = a :: b :: c :: d :: bs' := by
      match bs, h with
      | a :: b :: c :: d :: bs, _ => exact ⟨a, b, c, d, bs, rfl⟩
    rw [words, List.length_cons, ih (by simp at h; omega)]

theorem length_schedule (n : Nat) (w : List UInt32) : (schedule n w).length = n := by
  induction n generalizing w with
  | zero => rfl
  | succ n ih => rw [schedule, List.length_cons, ih]

theorem getD_schedule_succ (n j : Nat) (w : List UInt32) :
    (schedule (n + 1) w).getD (j + 1) 0 = (schedule n (w.drop 1 ++ [nextWord w])).getD j 0 :=
  rfl

/-- A schedule begins with the words that it was made from. -/
theorem getD_schedule_of_lt {n j : Nat} {w : List UInt32} (hw : j < w.length) (hn : j < n) :
    (schedule n w).getD j 0 = w.getD j 0 := by
  induction j generalizing n w with
  | zero =>
    obtain ⟨n, rfl⟩ := Nat.exists_eq_succ_of_ne_zero (by omega : n ≠ 0)
    rfl
  | succ j ih =>
    obtain ⟨n, rfl⟩ := Nat.exists_eq_succ_of_ne_zero (by omega : n ≠ 0)
    have hdrop : j < (w.drop 1).length := by simp; omega
    rw [getD_schedule_succ, ih (by simp; omega) (by omega)]
    rw [List.getD_eq_getElem?_getD, List.getElem?_append_left hdrop, List.getElem?_drop, Nat.add_comm,
      List.getD_eq_getElem?_getD]

theorem getD_schedule_length {n : Nat} {w : List UInt32} (hw : 0 < w.length) (hn : w.length < n) :
    (schedule n w).getD w.length 0 = nextWord w := by
  obtain ⟨k, hk⟩ := Nat.exists_eq_succ_of_ne_zero (by omega : w.length ≠ 0)
  obtain ⟨n, rfl⟩ := Nat.exists_eq_succ_of_ne_zero (by omega : n ≠ 0)
  rw [hk, getD_schedule_succ, getD_schedule_of_lt (by simp; omega) (by omega)]
  simp [List.getD_eq_getElem?_getD, hk]

/-- After the sixteen words of a block, each word is a sum of four words before. -/
theorem schedule_recurrence {n i : Nat} {w : List UInt32} (hw : w.length = 16) (hi : i + 16 < n) :
    let word := fun j => (schedule n w).getD j 0
    let s := fun x => rotateRight x 7 ^^^ rotateRight x 18 ^^^ (x >>> 3)
    let t := fun x => rotateRight x 17 ^^^ rotateRight x 19 ^^^ (x >>> 10)
    word (i + 16) = word i + s (word (i + 1)) + word (i + 9) + t (word (i + 14)) := by
  intro word s t
  induction i generalizing n w with
  | zero =>
    have hfirst : ∀ j < 16, word j = w.getD j 0 := fun j hj => getD_schedule_of_lt (by omega) (by omega)
    have hnext : word 16 = nextWord w := by
      rw [← hw]
      exact getD_schedule_length (by omega) (by omega)
    rw [Nat.zero_add, hnext, hfirst 0, hfirst (0 + 1), hfirst (0 + 9), hfirst (0 + 14)]
    · rfl
    all_goals omega
  | succ i ih =>
    obtain ⟨n, rfl⟩ := Nat.exists_eq_succ_of_ne_zero (by omega : n ≠ 0)
    have hwindow : (w.drop 1 ++ [nextWord w]).length = 16 := by simp [hw]
    exact ih hwindow (by omega)

/-- The 64 rounds of a block: its sixteen words, and then the words that the schedule goes on with. -/
theorem schedule_block {b : List UInt8} (hb : b.length = 64) :
    let word := fun j => (schedule 64 (words b)).getD j 0
    let s := fun x => rotateRight x 7 ^^^ rotateRight x 18 ^^^ (x >>> 3)
    let t := fun x => rotateRight x 17 ^^^ rotateRight x 19 ^^^ (x >>> 10)
    ((schedule 64 (words b)).zip roundConstants).length = 64 ∧
      (∀ j < 16, word j = (words b).getD j 0) ∧
      ∀ i < 48, word (i + 16) = word i + s (word (i + 1)) + word (i + 9) + t (word (i + 14)) := by
  intro word s t
  have hwords : (words b).length = 16 := length_words (by omega)
  have hconstants : roundConstants.length = 64 := rfl
  refine ⟨?_, fun j hj => getD_schedule_of_lt (by omega) (by omega), fun i hi => ?_⟩
  · rw [List.length_zip, length_schedule, hconstants, Nat.min_self]
  · exact schedule_recurrence hwords (by omega)

end OpcodeTables.Sha256
