import ComputeKernel.Support.Finishes
import ComputeKernel.Support.OnesComplement
import ComputeKernel.Net.Wire

/-! The checksum of an IPv4 header is the complement of the one's complement sum of its
words. From that it follows that a header verifies once its checksum is stored in it, and
which changes of a word go unnoticed. -/
namespace ComputeKernel.IpPacket
open Checked (Exec Finishes)
open OnesComplement (residue total)

variable {σ : Type}

/-- The words in network order; a zero byte is added to an odd number of bytes. -/
def words : List UInt8 → List Nat
  | [] => []
  | [last] => [last.toNat * 256]
  | high :: low :: rest => (high.toNat * 256 + low.toNat) :: words rest

/-- The sum of the words as numbers. -/
def wordSum (bytes : List UInt8) : Nat := (words bytes).foldl (· + ·) 0

theorem words_le (bytes : List UInt8) : ∀ word ∈ words bytes, word ≤ 65535 := by
  induction bytes using words.induct with
  | case1 => exact nofun
  | case2 last =>
      have bound := last.toNat_lt
      intro word member
      rw [words, List.mem_singleton] at member
      omega
  | case3 high low rest ih =>
      have bound := high.toNat_lt
      have bound' := low.toNat_lt
      intro word member
      rcases List.mem_cons.mp member with rfl | later
      · omega
      · exact ih word later

theorem words_length (bytes : List UInt8) : 2 * (words bytes).length ≤ bytes.length + 1 := by
  induction bytes using words.induct with
  | case1 => exact Nat.zero_le _
  | case2 last => exact Nat.le_refl 2
  | case3 high low rest ih =>
      simp only [words, List.length_cons]
      omega

theorem foldl_add_start (numbers : List Nat) (start : Nat) :
    numbers.foldl (· + ·) start = start + numbers.foldl (· + ·) 0 := by
  induction numbers generalizing start with
  | nil => rfl
  | cons number numbers ih =>
      rw [List.foldl_cons, List.foldl_cons, ih, ih (0 + number)]
      omega

theorem foldl_add_le {bound : Nat} {numbers : List Nat} (small : ∀ n ∈ numbers, n ≤ bound) :
    numbers.foldl (· + ·) 0 ≤ bound * numbers.length := by
  induction numbers with
  | nil => exact Nat.zero_le _
  | cons number numbers ih =>
      have first := small number List.mem_cons_self
      have rest := ih (fun n member => small n (List.mem_cons_of_mem number member))
      rw [List.foldl_cons, foldl_add_start, List.length_cons, Nat.mul_succ]
      omega

theorem wordSum_cons (high low : UInt8) (rest : List UInt8) :
    wordSum (high :: low :: rest) = high.toNat * 256 + low.toNat + wordSum rest := by
  unfold wordSum
  rw [words, List.foldl_cons, foldl_add_start, Nat.zero_add]

/-- The accumulator has room for the words of any packet. -/
theorem wordSum_lt {bytes : List UInt8} (short : bytes.length ≤ 65535) : wordSum bytes < 2 ^ 31 := by
  have sum := foldl_add_le (words_le bytes)
  have count := words_length bytes
  unfold wordSum
  omega

theorem chunkWord_pair (high low : UInt8) (s : σ) :
    chunkWord [high, low] s = .done (fromBe16 high low).toUInt32 s := rfl

theorem chunkWord_single (last : UInt8) (s : σ) :
    chunkWord [last] s = .done (last.toUInt32 <<< 8) s := rfl

theorem single_toNat (last : UInt8) : (last.toUInt32 <<< 8).toNat = last.toNat * 256 := by
  have bound := last.toNat_lt
  rw [UInt32.toNat_shiftLeft, UInt8.toNat_toUInt32, show (8 : UInt32).toNat % 32 = 8 from rfl,
    Nat.shiftLeft_eq]
  omega

theorem addChunks_cons {chunk : List UInt8} {chunks : List (List UInt8)} {sum word : UInt32} {s : σ}
    (read : chunkWord chunk s = .done word s) (fits : sum.toNat + word.toNat < 2 ^ 32) :
    addChunks (chunk :: chunks) sum s = addChunks chunks (sum + word) s := by
  rw [addChunks, Exec.bind_of_done read, Exec.bind_of_done (Exec.u32Add_of_lt fits s)]

theorem toNat_add_of_lt {a b : UInt32} (fits : a.toNat + b.toNat < 2 ^ 32) :
    (a + b).toNat = a.toNat + b.toNat := by
  rw [UInt32.toNat_add, Nat.mod_eq_of_lt fits]

/-- The loop adds up the words, and does not overflow while they fit. -/
theorem addChunks_run (bytes : List UInt8) {sum : UInt32}
    (fits : sum.toNat + wordSum bytes < 2 ^ 32) (s : σ) :
    ∃ last : UInt32, addChunks (chunks2 bytes) sum s = .done last s ∧
      last.toNat = sum.toNat + wordSum bytes := by
  induction bytes using chunks2.induct generalizing sum with
  | case1 => exact ⟨sum, rfl, rfl⟩
  | case2 last =>
      have value := single_toNat last
      have room : sum.toNat + (last.toUInt32 <<< 8).toNat < 2 ^ 32 := by
        rw [value]
        simpa [wordSum, words] using fits
      refine ⟨_, addChunks_cons (chunkWord_single last s) room, ?_⟩
      rw [toNat_add_of_lt room, value]
      simp [wordSum, words]
  | case3 high low rest ih =>
      have value : (fromBe16 high low).toUInt32.toNat = high.toNat * 256 + low.toNat := by
        rw [UInt16.toNat_toUInt32, fromBe16_toNat]
      rw [wordSum_cons] at fits ⊢
      have room : sum.toNat + (fromBe16 high low).toUInt32.toNat < 2 ^ 32 := by omega
      have next := toNat_add_of_lt room
      have roomAfter : (sum + (fromBe16 high low).toUInt32).toNat + wordSum rest < 2 ^ 32 := by omega
      obtain ⟨last, ran, total⟩ := ih roomAfter
      refine ⟨last, ?_, by omega⟩
      rw [chunks2, addChunks_cons (chunkWord_pair high low s) room, ran]

theorem low_half (sum : UInt32) : (sum &&& 0xffff).toNat = sum.toNat % 65536 := by
  rw [UInt32.toNat_and]
  exact Nat.and_two_pow_sub_one_eq_mod sum.toNat 16

theorem high_half (sum : UInt32) : (sum >>> 16).toNat = sum.toNat / 65536 := by
  rw [UInt32.toNat_shiftRight]
  exact Nat.shiftRight_eq_div_pow sum.toNat 16

/-- The folding loop ends with the word that represents the sum. -/
theorem folding_finishes (sum : UInt32) (s : σ) :
    Finishes (Exec.whileLoop (fun sum : UInt32 => sum >>> 16 != 0)
        (fun sum => Exec.u32Add (sum &&& 0xffff) (sum >>> 16)) (sum.toNat + 1) sum)
      (fun word s' => word.toNat = residue 65535 sum.toNat ∧ s' = s) s := by
  refine Finishes.mono (Finishes.whileLoop
    (I := fun word s' => residue 65535 word.toNat = residue 65535 sum.toNat ∧ s' = s)
    UInt32.toNat ⟨rfl, rfl⟩ (Nat.lt_succ_self _) ?_) ?_
  · rintro word _ ⟨same, rfl⟩ goes
    have high := high_half word
    have low := low_half word
    have outgrown : 65535 < word.toNat := by
      have nonzero : word >>> 16 ≠ 0 := by simpa using goes
      have positive : (word >>> 16).toNat ≠ 0 := fun zero => nonzero (UInt32.toNat_inj.mp zero)
      omega
    have bound := word.toNat_lt
    have fits : (word &&& 0xffff).toNat + (word >>> 16).toNat < 2 ^ 32 := by omega
    have folded : ((word &&& (0xffff : UInt32)) + word >>> 16).toNat = OnesComplement.fold 65535 word.toNat := by
      rw [toNat_add_of_lt fits, high, low]
      rfl
    refine Finishes.of_done (Exec.u32Add_of_lt fits _) ⟨⟨?_, rfl⟩, ?_⟩
    · rw [folded, OnesComplement.residue_fold (by decide), same]
    · rw [folded]
      exact OnesComplement.fold_lt (by decide) outgrown
  · rintro word s' ⟨⟨same, rfl⟩, stops⟩
    have high := high_half word
    have zero : word >>> 16 = 0 := by simpa using stops
    rw [zero] at high
    have small : word.toNat ≤ 65535 := by
      have none_ : (0 : UInt32).toNat = 0 := rfl
      omega
    rw [OnesComplement.residue_of_le small] at same
    exact ⟨same, rfl⟩

theorem checksum_run {header : List UInt8} (short : header.length ≤ 65535) (s : σ) :
    checksum header s = .done (~~~UInt16.ofNat (residue 65535 (wordSum header))) s := by
  have bound := wordSum_lt short
  have room : (0 : UInt32).toNat + wordSum header < 2 ^ 32 := by
    rw [show (0 : UInt32).toNat = 0 from rfl]
    omega
  obtain ⟨sum, added, value⟩ := addChunks_run header room s
  obtain ⟨word, _, folded, represented, rfl⟩ := folding_finishes sum s
  have same : word.toUInt16 = UInt16.ofNat (residue 65535 (wordSum header)) := by
    rw [← UInt16.toNat_inj, UInt32.toNat_toUInt16, UInt16.toNat_ofNat', represented, value,
      show (0 : UInt32).toNat = 0 from rfl, Nat.zero_add]
  unfold checksum
  rw [Exec.bind_of_done added, Exec.bind_of_done folded, Exec.ret_run, same]

theorem complement_toNat {sum : Nat} (small : sum ≤ 65535) :
    (~~~UInt16.ofNat sum).toNat = 65535 - sum := by
  rw [UInt16.toNat_not, UInt16.toNat_ofNat', Nat.mod_eq_of_lt (by omega)]
  rfl

/-- The checksum is the complement of the sum with end-around carry. That sum is `0` when
all words are, and otherwise the one number of `1..65535` congruent to the exact sum. -/
theorem checksum_complements_sum {header : List UInt8} (short : header.length ≤ 65535) (s : σ) :
    checksum header s = .done (~~~UInt16.ofNat (total 65535 (words header))) s ∧
      (wordSum header = 0 → total 65535 (words header) = 0) ∧
      (wordSum header ≠ 0 → ∀ value, value = total 65535 (words header) ↔
        1 ≤ value ∧ value ≤ 65535 ∧ value ≡ wordSum header [MOD 65535]) := by
  have represented : total 65535 (words header) = residue 65535 (wordSum header) :=
    OnesComplement.total_eq_residue (by decide) (words_le header)
  rw [represented]
  refine ⟨checksum_run short s, ?_, ?_⟩
  · intro zero
    rw [zero, OnesComplement.residue_zero]
  · intro nonzero value
    have positive := Nat.pos_of_ne_zero nonzero
    constructor
    · rintro rfl
      exact ⟨OnesComplement.residue_pos positive, OnesComplement.residue_le (by decide) _,
        OnesComplement.residue_modEq _ _⟩
    · rintro ⟨least, most, same⟩
      exact OnesComplement.eq_residue least most positive same

/-- The sum of these words carries around the end. -/
theorem checksum_complements_sum_odd :
    checksum [0xff, 0xff, 0x01] () =
      .done (~~~UInt16.ofNat (total 65535 (words [0xff, 0xff, 0x01]))) () :=
  (checksum_complements_sum (by decide) ()).1

/-- A header verifies when its sum is a positive multiple of `65535`. -/
theorem checksum_eq_zero_iff {header : List UInt8} (short : header.length ≤ 65535) (s : σ) :
    checksum header s = .done 0 s ↔ 0 < wordSum header ∧ wordSum header ≡ 0 [MOD 65535] := by
  have bound : residue 65535 (wordSum header) ≤ 65535 := OnesComplement.residue_le (by decide) _
  have value := complement_toNat bound
  rw [← OnesComplement.residue_eq_top_iff (by decide), checksum_run short]
  constructor
  · intro verified
    obtain ⟨zero, _⟩ := Checked.Outcome.done.inj verified
    rw [zero, show (0 : UInt16).toNat = 0 from rfl] at value
    omega
  · intro top
    have zero : ~~~UInt16.ofNat (residue 65535 (wordSum header)) = 0 := by
      rw [← UInt16.toNat_inj, value, top]
      rfl
    rw [zero]

/-- A word stored at a position, in network order. -/
def putWord (bytes : List UInt8) (position : Nat) (word : UInt16) : List UInt8 :=
  (bytes.set position (word >>> 8).toUInt8).set (position + 1) word.toUInt8

/-- The word that stands at a position. -/
def wordAt (bytes : List UInt8) (position : Nat) : UInt16 :=
  fromBe16 (bytes.getD position 0) (bytes.getD (position + 1) 0)

theorem putWord_length (bytes : List UInt8) (position : Nat) (word : UInt16) :
    (putWord bytes position word).length = bytes.length := by
  rw [putWord, List.length_set, List.length_set]

theorem putWord_putWord (bytes : List UInt8) (position : Nat) (word word' : UInt16) :
    putWord (putWord bytes position word) position word' = putWord bytes position word' := by
  have apart : position + 1 ≠ position := Nat.succ_ne_self position
  unfold putWord
  rw [List.set_comm _ _ apart, List.set_set, List.set_set]

theorem wordAt_putWord {bytes : List UInt8} {position : Nat} (inside : position + 1 < bytes.length)
    (word : UInt16) : wordAt (putWord bytes position word) position = word := by
  have size : position < bytes.length := by omega
  simp [wordAt, putWord, List.getD_eq_getElem?_getD, inside, size, fromBe16_toBe16]

theorem exists_pair {bytes : List UInt8} (long : 1 < bytes.length) :
    ∃ high low rest, bytes = high :: low :: rest := by
  match bytes, long with
  | high :: low :: rest, _ => exact ⟨high, low, rest, rfl⟩

/-- The sum after a word has been stored. -/
theorem wordSum_putWord {i : Nat} {bytes : List UInt8} (inside : 2 * i + 1 < bytes.length)
    (word : UInt16) :
    wordSum (putWord bytes (2 * i) word) + (wordAt bytes (2 * i)).toNat =
      wordSum bytes + word.toNat := by
  induction i generalizing bytes with
  | zero =>
      obtain ⟨high, low, rest, rfl⟩ := exists_pair (by omega : 1 < bytes.length)
      have stored := fromBe16_toNat (word >>> 8).toUInt8 word.toUInt8
      have found := fromBe16_toNat high low
      rw [fromBe16_toBe16] at stored
      change wordSum ((word >>> 8).toUInt8 :: word.toUInt8 :: rest) + (fromBe16 high low).toNat = _
      rw [wordSum_cons, wordSum_cons]
      omega
  | succ i ih =>
      obtain ⟨high, low, rest, rfl⟩ := exists_pair (by omega : 1 < bytes.length)
      have within : 2 * i + 1 < rest.length := by
        simp only [List.length_cons] at inside
        omega
      have shifted := ih within
      change wordSum (high :: low :: putWord rest (2 * i) word) + (wordAt rest (2 * i)).toNat = _
      rw [wordSum_cons, wordSum_cons]
      omega

/-- The complement of the sum without a word makes the sum with it the negative zero. -/
theorem checksum_stored {i : Nat} {bytes : List UInt8} (room : 2 * i + 1 < bytes.length)
    (short : bytes.length ≤ 65535) (s : σ) :
    ∃ sum, checksum (putWord bytes (2 * i) 0) s = .done sum s ∧
      checksum (putWord (putWord bytes (2 * i) 0) (2 * i) sum) s = .done 0 s := by
  have size (word : UInt16) : (putWord bytes (2 * i) word).length ≤ 65535 := by
    rw [putWord_length]
    exact short
  have cleared : wordSum (putWord (putWord bytes (2 * i) 0) (2 * i) _) + _ = _ :=
    wordSum_putWord (by rw [putWord_length]; exact room)
      (~~~UInt16.ofNat (residue 65535 (wordSum (putWord bytes (2 * i) 0))))
  rw [wordAt_putWord room, complement_toNat (OnesComplement.residue_le (by decide) _)] at cleared
  refine ⟨_, checksum_run (size 0) s, ?_⟩
  rw [checksum_eq_zero_iff (by rw [putWord_putWord]; exact size _),
    ← OnesComplement.residue_eq_top_iff (by decide)]
  change wordSum _ + 0 = _ at cleared
  rw [← Nat.add_zero (wordSum _), cleared, OnesComplement.residue_add_complement (by decide)]

/-- Data that verifies with either of two words has words of one residue. -/
theorem words_congruent {i : Nat} {bytes : List UInt8} (room : 2 * i + 1 < bytes.length)
    (short : bytes.length ≤ 65535) {word : UInt16} {s : σ} (verified : checksum bytes s = .done 0 s)
    (again : checksum (putWord bytes (2 * i) word) s = .done 0 s) :
    (wordAt bytes (2 * i)).toNat ≡ word.toNat [MOD 65535] := by
  obtain ⟨_, before⟩ := (checksum_eq_zero_iff short s).mp verified
  obtain ⟨_, after⟩ := (checksum_eq_zero_iff (by rw [putWord_length]; exact short) s).mp again
  have left := (after.add_right (wordAt bytes (2 * i)).toNat).symm
  have right := before.add_right word.toNat
  rw [wordSum_putWord room word, Nat.zero_add] at left
  rw [Nat.zero_add] at right
  exact left.trans right

/-- A checksum that is stored where it was computed verifies, and changing one word of
data that verifies is noticed unless it exchanges the two zeros. -/
theorem checksum_detects {bytes : List UInt8} (even : bytes.length % 2 = 0)
    (short : bytes.length ≤ 65534) {position : Nat} (aligned : position % 2 = 0)
    (inside : position < bytes.length) (s : σ) :
    (∃ sum, checksum (putWord bytes position 0) s = .done sum s ∧
      checksum (putWord (putWord bytes position 0) position sum) s = .done 0 s) ∧
    (checksum bytes s = .done 0 s → ∀ word, word ≠ wordAt bytes position →
      ¬(wordAt bytes position = 0 ∧ word = 0xffff) → ¬(wordAt bytes position = 0xffff ∧ word = 0) →
      ∃ sum, checksum (putWord bytes position word) s = .done sum s ∧ sum ≠ 0) := by
  obtain ⟨i, rfl⟩ : ∃ i, position = 2 * i := ⟨position / 2, by omega⟩
  have room : 2 * i + 1 < bytes.length := by omega
  refine ⟨checksum_stored room (by omega) s, ?_⟩
  intro verified word differs notUp notDown
  have rerun : checksum (putWord bytes (2 * i) word) s = .done _ s :=
    checksum_run (by rw [putWord_length]; omega) s
  refine ⟨_, rerun, ?_⟩
  intro unnoticed
  rw [unnoticed] at rerun
  have same := words_congruent room (by omega) verified rerun
  have below := (wordAt bytes (2 * i)).toNat_lt
  have below' := word.toNat_lt
  rcases OnesComplement.eq_or_zeros (by omega) (by omega) same with equal | ⟨zero, top⟩ | ⟨top, zero⟩
  · exact differs (UInt16.toNat_inj.mp equal).symm
  · exact notUp ⟨UInt16.toNat_inj.mp zero, UInt16.toNat_inj.mp top⟩
  · exact notDown ⟨UInt16.toNat_inj.mp top, UInt16.toNat_inj.mp zero⟩

/-- The header of a packet on the loopback, with its checksum. -/
def loopbackHeader : List UInt8 :=
  [0x45, 0, 0, 20, 0, 0, 0, 0, 64, 6, 0x7c, 0xe2, 127, 0, 0, 1, 127, 0, 0, 1]

theorem checksum_detects_loopback :
    (∃ sum, checksum (putWord loopbackHeader 10 0) () = .done sum () ∧
      checksum (putWord (putWord loopbackHeader 10 0) 10 sum) () = .done 0 ()) ∧
    ∃ sum, checksum (putWord loopbackHeader 8 0x3f06) () = .done sum () ∧ sum ≠ 0 := by
  have even : loopbackHeader.length % 2 = 0 := by decide
  have short : loopbackHeader.length ≤ 65534 := by decide
  have stored := checksum_detects even short (by decide : 10 % 2 = 0) (by decide) ()
  have changed := checksum_detects even short (by decide : 8 % 2 = 0) (by decide) ()
  exact ⟨stored.1, changed.2 rfl 0x3f06 (by decide) (by decide) (by decide)⟩

end ComputeKernel.IpPacket
