import Mathlib.Data.UInt
import Sql602.Library.Strides
import Mathlib.Data.Nat.Prime.Basic

namespace Sql602.Encryption

open Strides

/-! The encryption of the blocks of the database file by a key from the password. -/

def XOR_SIZE : Nat := 32

/-- The characters of a password in front of the terminating zero. -/
structure Password where
  chars : List UInt8
  nonzero : ∀ c ∈ chars, c ≠ 0

/-- A byte of the memory at the password, with the bytes behind the terminating zero. -/
def Password.byte (password : Password) (behind : Nat → UInt8) (i : Nat) : UInt8 :=
  if i < password.chars.length then password.chars.getD i 0
  else if i = password.chars.length then 0
  else behind (i - password.chars.length - 1)

/-- A size of blocks that is a power of two and fits into 32 bits. -/
structure BlockSize where
  exponent : Nat
  exponent_lt : exponent < 32

def BlockSize.blocksize (size : BlockSize) : Nat := 2 ^ size.exponent

/-- A character is signed. -/
def signedChar (c : UInt8) : BitVec 32 := c.toBitVec.signExtend 32

/-- The characters combined by exclusive or as integers. -/
def xorChars : List UInt8 → BitVec 32 → BitVec 32
  | [], x => x
  | c :: rest, x => xorChars rest (x ^^^ signedChar c)

structure Crypt where
  crypt_step : Nat
  crypt_xor : Nat → UInt8

/-- The byte of the key at `i` with the position in the password after it. -/
def cryptXor (password : Password) (behind : Nat → UInt8) : Nat → UInt8 × Nat
  | 0 => (password.byte behind 0, 0)
  | i + 1 =>
      let previous := cryptXor password behind i
      (password.byte behind previous.2 ^^^ (previous.1 <<< 1),
        if password.byte behind (previous.2 + 1) = 0 then 0 else previous.2 + 1)

def set_crypt (size : BlockSize) (password : Password) (behind : Nat → UInt8) : Crypt where
  crypt_step :=
    ((xorChars password.chars 0 <<< 2) ||| (BitVec.ofNat 32 size.blocksize >>> 1) ||| 1).toNat
  crypt_xor := fun i => (cryptXor password behind i).1

abbrev Block := Nat → UInt8

section Loops

variable (size : BlockSize) (crypt : Crypt)

def nextKey (j : Nat) : Nat := if j + 1 = XOR_SIZE then 0 else j + 1

def nextPos (pos : Nat) : Nat := (pos + crypt.crypt_step) % 2 ^ 32 &&& (size.blocksize - 1)

/-- The loop of `i_fil_crypt`. It fails at a position outside the block. -/
def inputLoop : Nat → Block → UInt8 → Nat → Nat → Option Block
  | 0, block, _, _, _ => some block
  | rest + 1, block, bt, pos, j =>
      if pos < size.blocksize then
        inputLoop rest (Function.update block pos (bt ^^^ crypt.crypt_xor j)) (block pos)
          (nextPos size crypt pos) (nextKey j)
      else none

def i_fil_crypt (block : Block) : Option Block :=
  inputLoop size crypt size.blocksize block (block 0) crypt.crypt_step 0

/-- The loop of `o_fil_crypt`, which ends with the first byte at the last position. -/
def outputLoop (bt0 : UInt8) : Nat → Block → Nat → Nat → Option Block
  | 0, block, pos, j =>
      if pos < size.blocksize then
        some (Function.update block pos (bt0 ^^^ crypt.crypt_xor j))
      else none
  | rest + 1, block, pos, j =>
      let pos1 := nextPos size crypt pos
      if pos < size.blocksize ∧ pos1 < size.blocksize then
        outputLoop bt0 rest (Function.update block pos (block pos1 ^^^ crypt.crypt_xor j)) pos1
          (nextKey j)
      else none

def o_fil_crypt (block : Block) : Option Block :=
  outputLoop size crypt (block 0) (size.blocksize - 1) block 0 0

end Loops

end Sql602.Encryption

namespace Sql602.Encryption

open Strides

/-! The loops move the bytes of a block by one visited position and combine them with the key,
in the opposite directions. -/

variable {size : BlockSize} {crypt decrypt : Crypt} {old new : Block} {i : Nat}

theorem blocksize_pos : 0 < size.blocksize := Nat.two_pow_pos _

theorem blocksize_le : size.blocksize ≤ 2 ^ 31 :=
  Nat.pow_le_pow_right (by decide) (Nat.le_of_lt_succ size.exponent_lt)

section Loops

/-- What `inputLoop` has made of the block after `i` steps. -/
structure Forward (size : BlockSize) (crypt : Crypt) (old new : Block) (i : Nat) : Prop where
  written : ∀ m < i, new (visit crypt.crypt_step size.blocksize (m + 1)) =
    old (visit crypt.crypt_step size.blocksize m) ^^^ crypt.crypt_xor (m % XOR_SIZE)
  rest : ∀ m, i ≤ m → m < size.blocksize →
    new (visit crypt.crypt_step size.blocksize (m + 1)) =
      old (visit crypt.crypt_step size.blocksize (m + 1))
  outside : ∀ cell, size.blocksize ≤ cell → new cell = old cell

/-- What `outputLoop` has made of the block after `i` steps. -/
structure Backward (size : BlockSize) (crypt : Crypt) (old new : Block) (i : Nat) : Prop where
  written : ∀ m < i, new (visit crypt.crypt_step size.blocksize m) =
    old (visit crypt.crypt_step size.blocksize (m + 1)) ^^^ crypt.crypt_xor (m % XOR_SIZE)
  rest : ∀ m, i ≤ m → m < size.blocksize →
    new (visit crypt.crypt_step size.blocksize m) = old (visit crypt.crypt_step size.blocksize m)
  outside : ∀ cell, size.blocksize ≤ cell → new cell = old cell

theorem nextKey_mod : nextKey (i % XOR_SIZE) = (i + 1) % XOR_SIZE := by
  rw [nextKey, XOR_SIZE]
  split <;> omega

theorem nextPos_visit (hstep : crypt.crypt_step < size.blocksize) :
    nextPos size crypt (visit crypt.crypt_step size.blocksize i) =
      visit crypt.crypt_step size.blocksize (i + 1) := by
  have hpos : visit crypt.crypt_step size.blocksize i < size.blocksize :=
    visit_lt blocksize_pos
  have hle := @blocksize_le size
  rw [nextPos, Nat.mod_eq_of_lt (by omega), visit_succ]
  exact Nat.and_two_pow_sub_one_eq_mod _ _

variable (hstep : crypt.crypt_step < size.blocksize)
variable (hcoprime : Nat.gcd size.blocksize crypt.crypt_step = 1)

include hstep hcoprime

theorem inputLoop_forward {rest : Nat} (hrest : i + rest = size.blocksize)
    (hforward : Forward size crypt old new i) :
    ∃ result, inputLoop size crypt rest new (old (visit crypt.crypt_step size.blocksize i))
        (visit crypt.crypt_step size.blocksize (i + 1)) (i % XOR_SIZE) = some result ∧
      Forward size crypt old result size.blocksize := by
  induction rest generalizing i new with
  | zero =>
      obtain rfl : i = size.blocksize := hrest
      exact ⟨new, rfl, hforward⟩
  | succ rest ih =>
      have hi : i < size.blocksize := by omega
      rw [inputLoop, if_pos (visit_lt blocksize_pos), nextPos_visit hstep, nextKey_mod,
        hforward.rest i (Nat.le_refl i) hi]
      refine ih (by omega) ⟨fun m hm => ?_, fun m hm hlt => ?_, fun cell hcell => ?_⟩
      · obtain hlt | rfl := Nat.lt_or_eq_of_le (Nat.le_of_lt_succ hm)
        · rw [Function.update_of_ne]
          · exact hforward.written m hlt
          · intro hsame
            have := visit_succ_injective hcoprime (by omega) hi hsame
            omega
        · rw [Function.update_self]
      · rw [Function.update_of_ne]
        · exact hforward.rest m (by omega) hlt
        · intro hsame
          have := visit_succ_injective hcoprime hlt hi hsame
          omega
      · rw [Function.update_of_ne]
        · exact hforward.outside cell hcell
        · intro hsame
          have := @visit_lt crypt.crypt_step size.blocksize (i + 1) blocksize_pos
          omega

theorem outputLoop_backward {rest : Nat} (hrest : i + rest + 1 = size.blocksize)
    (hbackward : Backward size crypt old new i) :
    ∃ result, outputLoop size crypt (old 0) rest new (visit crypt.crypt_step size.blocksize i)
        (i % XOR_SIZE) = some result ∧ Backward size crypt old result size.blocksize := by
  induction rest generalizing i new with
  | zero =>
      rw [outputLoop, if_pos (visit_lt blocksize_pos)]
      refine ⟨_, rfl, fun m hm => ?_, fun m hm hlt => absurd hm (Nat.not_le_of_lt hlt),
        fun cell hcell => ?_⟩
      · obtain hlt | rfl := Nat.lt_or_eq_of_le (show m ≤ i by omega)
        · rw [Function.update_of_ne]
          · exact hbackward.written m hlt
          · intro hsame
            have := visit_injective hcoprime hm (by omega) hsame
            omega
        · rw [Function.update_self, show m + 1 = size.blocksize from hrest, visit_size]
      · rw [Function.update_of_ne]
        · exact hbackward.outside cell hcell
        · intro hsame
          have := @visit_lt crypt.crypt_step size.blocksize i blocksize_pos
          omega
  | succ rest ih =>
      have hi : i < size.blocksize := by omega
      simp only [outputLoop, nextPos_visit hstep]
      rw [if_pos ⟨visit_lt blocksize_pos, visit_lt blocksize_pos⟩, nextKey_mod,
        hbackward.rest (i + 1) (by omega) (by omega)]
      refine ih (by omega) ⟨fun m hm => ?_, fun m hm hlt => ?_, fun cell hcell => ?_⟩
      · obtain hlt | rfl := Nat.lt_or_eq_of_le (Nat.le_of_lt_succ hm)
        · rw [Function.update_of_ne]
          · exact hbackward.written m hlt
          · intro hsame
            have := visit_injective hcoprime (by omega) hi hsame
            omega
        · rw [Function.update_self]
      · rw [Function.update_of_ne]
        · exact hbackward.rest m (by omega) hlt
        · intro hsame
          have := visit_injective hcoprime hlt hi hsame
          omega
      · rw [Function.update_of_ne]
        · exact hbackward.outside cell hcell
        · intro hsame
          have := @visit_lt crypt.crypt_step size.blocksize i blocksize_pos
          omega

theorem i_fil_crypt_forward (block : Block) :
    ∃ result, i_fil_crypt size crypt block = some result ∧
      Forward size crypt block result size.blocksize := by
  have hloop := @inputLoop_forward size crypt block block 0 hstep hcoprime size.blocksize
    (Nat.zero_add _) ⟨nofun, fun _ _ _ => rfl, fun _ _ => rfl⟩
  rw [visit_zero, Nat.zero_mod, visit_succ, visit_zero, Nat.zero_add,
    Nat.mod_eq_of_lt hstep] at hloop
  exact hloop

theorem o_fil_crypt_backward (block : Block) :
    ∃ result, o_fil_crypt size crypt block = some result ∧
      Backward size crypt block result size.blocksize := by
  have hloop := @outputLoop_backward size crypt block block 0 hstep hcoprime (size.blocksize - 1)
    (by have := @blocksize_pos size; omega) ⟨nofun, fun _ _ _ => rfl, fun _ _ => rfl⟩
  rw [visit_zero, Nat.zero_mod] at hloop
  exact hloop

end Loops

section Inverses

variable (hstep : crypt.crypt_step < size.blocksize)
variable (hcoprime : Nat.gcd size.blocksize crypt.crypt_step = 1)
variable (hsame : decrypt.crypt_step = crypt.crypt_step)

include hstep hcoprime hsame

theorem input_output (hkeys : ∀ m < size.blocksize,
    decrypt.crypt_xor (m % XOR_SIZE) = crypt.crypt_xor (m % XOR_SIZE)) (block : Block) :
    ∃ encrypted, o_fil_crypt size crypt block = some encrypted ∧
      i_fil_crypt size decrypt encrypted = some block := by
  obtain ⟨encrypted, houtput, hbackward⟩ := o_fil_crypt_backward hstep hcoprime block
  obtain ⟨result, hinput, hforward⟩ :=
    @i_fil_crypt_forward size decrypt (by rw [hsame]; exact hstep) (by rw [hsame]; exact hcoprime)
      encrypted
  refine ⟨encrypted, houtput, hinput.trans (congrArg some ?_)⟩
  refine funext_visit_succ hcoprime (fun m hm => ?_) fun cell hcell =>
    (hforward.outside cell hcell).trans (hbackward.outside cell hcell)
  have hwritten := hforward.written m hm
  rw [hsame] at hwritten
  rw [hwritten, hbackward.written m hm, hkeys m hm, UInt8.xor_assoc, UInt8.xor_self,
    UInt8.xor_zero]

theorem output_input (hkeys : ∀ m < size.blocksize,
    decrypt.crypt_xor (m % XOR_SIZE) = crypt.crypt_xor (m % XOR_SIZE)) (block : Block) :
    ∃ encrypted, i_fil_crypt size crypt block = some encrypted ∧
      o_fil_crypt size decrypt encrypted = some block := by
  obtain ⟨encrypted, hinput, hforward⟩ := i_fil_crypt_forward hstep hcoprime block
  obtain ⟨result, houtput, hbackward⟩ :=
    @o_fil_crypt_backward size decrypt (by rw [hsame]; exact hstep) (by rw [hsame]; exact hcoprime)
      encrypted
  refine ⟨encrypted, hinput, houtput.trans (congrArg some ?_)⟩
  refine funext_visit hcoprime (fun m hm => ?_) fun cell hcell =>
    (hbackward.outside cell hcell).trans (hforward.outside cell hcell)
  have hwritten := hbackward.written m hm
  rw [hsame] at hwritten
  rw [hwritten, hforward.written m hm, hkeys m hm, UInt8.xor_assoc, UInt8.xor_self,
    UInt8.xor_zero]

/-- Keys that differ at a byte of the block do not give the block back. -/
theorem keys_of_inverse (hinverse : ∀ block, ∃ encrypted,
      o_fil_crypt size crypt block = some encrypted ∧
        i_fil_crypt size decrypt encrypted = some block) {m : Nat} (hm : m < size.blocksize) :
    decrypt.crypt_xor (m % XOR_SIZE) = crypt.crypt_xor (m % XOR_SIZE) := by
  obtain ⟨encrypted, houtput, hbackward⟩ := o_fil_crypt_backward hstep hcoprime fun _ => 0
  obtain ⟨result, hinput, hforward⟩ :=
    @i_fil_crypt_forward size decrypt (by rw [hsame]; exact hstep) (by rw [hsame]; exact hcoprime)
      encrypted
  obtain ⟨other, hother, hgiven⟩ := hinverse fun _ => 0
  obtain rfl := Option.some.inj (houtput.symm.trans hother)
  obtain rfl := Option.some.inj (hinput.symm.trans hgiven)
  have hwritten := hforward.written m hm
  rw [hsame, hbackward.written m hm, UInt8.zero_xor] at hwritten
  exact (UInt8.xor_eq_zero_iff.mp hwritten.symm).symm

end Inverses

section Steps

variable {password : Password} {behind : Nat → UInt8}

/-- The exclusive or of the bytes of the password. -/
def xorBytes (chars : List UInt8) : UInt8 := chars.foldl (fun x c => x ^^^ c) 0

theorem signedChar_xor (c d : UInt8) : signedChar (c ^^^ d) = signedChar c ^^^ signedChar d := by
  rw [signedChar, UInt8.toBitVec_xor, BitVec.signExtend_xor, signedChar, signedChar]

theorem xorChars_eq (chars : List UInt8) (x : UInt8) :
    xorChars chars (signedChar x) = signedChar (chars.foldl (fun x c => x ^^^ c) x) := by
  induction chars generalizing x with
  | nil => rfl
  | cons c rest ih => rw [xorChars, ← signedChar_xor, ih, List.foldl_cons]

theorem crypt_step_eq : (set_crypt size password behind).crypt_step =
    (signedChar (xorBytes password.chars)).toNat <<< 2 % 2 ^ 32 |||
      size.blocksize / 2 ||| 1 := by
  have hle := @blocksize_le size
  have hchars : xorChars password.chars 0 = signedChar (xorBytes password.chars) :=
    xorChars_eq password.chars 0
  rw [set_crypt, hchars, BitVec.toNat_or, BitVec.toNat_or, BitVec.toNat_shiftLeft,
    BitVec.toNat_ushiftRight, BitVec.toNat_ofNat, @Nat.mod_eq_of_lt size.blocksize _ (by omega),
    Nat.shiftRight_eq_div_pow]
  rfl

theorem crypt_step_lt_iff : (set_crypt size password behind).crypt_step < size.blocksize ↔
    (xorBytes password.chars).toNat < 128 ∧ 4 * (xorBytes password.chars).toNat < size.blocksize ∧
      2 ≤ size.blocksize := by
  rw [crypt_step_eq, signedChar, BitVec.toNat_signExtend, BitVec.toNat_setWidth,
    UInt8.toNat_toBitVec]
  generalize hbyte : xorBytes password.chars = byte
  have hlt : byte.toNat < 256 := byte.toNat_lt
  rw [@Nat.mod_eq_of_lt byte.toNat _ (by omega), Nat.shiftLeft_eq]
  have hle := @blocksize_le size
  by_cases hsign : byte.toNat < 128
  · have hmsb : byte.toBitVec.msb = false := by
      rw [BitVec.msb_eq_decide]
      exact decide_eq_false (by rw [UInt8.toNat_toBitVec]; omega)
    rw [hmsb]
    simp only [Bool.false_eq_true, if_false, Nat.add_zero]
    rw [@Nat.mod_eq_of_lt (byte.toNat * 2 ^ 2) _ (by omega)]
    constructor
    · intro hstep
      have hleft := @Nat.left_le_or (byte.toNat * 2 ^ 2 ||| size.blocksize / 2) 1
      have hmore := @Nat.left_le_or (byte.toNat * 2 ^ 2) (size.blocksize / 2)
      have hright := @Nat.right_le_or (byte.toNat * 2 ^ 2 ||| size.blocksize / 2) 1
      omega
    · rintro ⟨-, hfour, htwo⟩
      refine Nat.or_lt_two_pow (Nat.or_lt_two_pow ?_ ?_) ?_
      · rw [← BlockSize.blocksize]
        omega
      · rw [← BlockSize.blocksize]
        omega
      · rw [← BlockSize.blocksize]
        omega
  · have hmsb : byte.toBitVec.msb = true := by
      rw [BitVec.msb_eq_decide]
      exact decide_eq_true (by rw [UInt8.toNat_toBitVec]; omega)
    rw [hmsb, if_pos rfl]
    constructor
    · intro hstep
      have hleft := @Nat.left_le_or
        ((byte.toNat + (2 ^ 32 - 2 ^ 8)) * 2 ^ 2 % 2 ^ 32 ||| size.blocksize / 2) 1
      have hmore := @Nat.left_le_or ((byte.toNat + (2 ^ 32 - 2 ^ 8)) * 2 ^ 2 % 2 ^ 32)
        (size.blocksize / 2)
      omega
    · rintro ⟨hnot, -⟩
      exact absurd hnot hsign

theorem crypt_step_coprime :
    Nat.gcd size.blocksize (set_crypt size password behind).crypt_step = 1 := by
  refine Nat.Coprime.pow_left size.exponent (Nat.coprime_two_left.mpr ?_)
  rw [crypt_step_eq, Nat.odd_iff, Nat.or_mod_two_eq_one]
  exact Or.inr rfl

end Steps

section Keys

variable {password : Password} {first second : Nat → UInt8} {j : Nat}

theorem byte_inside (hj : j ≤ password.chars.length) :
    password.byte first j = password.byte second j := by
  rw [Password.byte, Password.byte]
  obtain hlt | rfl := Nat.lt_or_eq_of_le hj
  · rw [if_pos hlt, if_pos hlt]
  · rw [if_neg (Nat.lt_irrefl _), if_neg (Nat.lt_irrefl _), if_pos rfl, if_pos rfl]

theorem byte_length : password.byte first password.chars.length = 0 := by
  rw [Password.byte, if_neg (Nat.lt_irrefl _), if_pos rfl]

/-- The key of a password with a character reads nothing behind the terminating zero. -/
theorem cryptXor_inside (hchars : password.chars ≠ []) (i : Nat) :
    cryptXor password first i = cryptXor password second i ∧
      (cryptXor password first i).2 < password.chars.length := by
  have hpos : 0 < password.chars.length := List.length_pos_of_ne_nil hchars
  induction i with
  | zero => exact ⟨Prod.ext (byte_inside (Nat.zero_le _)) rfl, hpos⟩
  | succ i ih =>
      obtain ⟨hsame, hlt⟩ := ih
      simp only [cryptXor]
      rw [← hsame, @byte_inside password first second _ (Nat.le_of_lt hlt),
        @byte_inside password first second ((cryptXor password first i).2 + 1)
          (Nat.succ_le_of_lt hlt)]
      refine ⟨rfl, ?_⟩
      by_cases hend : (cryptXor password first i).2 + 1 = password.chars.length
      · rw [hend, byte_length, if_pos rfl]
        exact hpos
      · split
        · exact hpos
        · change (cryptXor password first i).2 + 1 < password.chars.length
          omega

theorem keys_agree (size : BlockSize) (hchars : password.chars ≠ [] ∨ size.blocksize = 2) {m : Nat}
    (hm : m < size.blocksize) : (set_crypt size password second).crypt_xor (m % XOR_SIZE) =
      (set_crypt size password first).crypt_xor (m % XOR_SIZE) := by
  obtain hchars | htwo := hchars
  · exact congrArg Prod.fst (cryptXor_inside hchars _).1
  · have hzero := @byte_inside password second first 0 (Nat.zero_le _)
    obtain rfl | rfl : m = 0 ∨ m = 1 := by omega
    · exact hzero
    · change password.byte second 0 ^^^ (password.byte second 0 <<< 1) =
        password.byte first 0 ^^^ (password.byte first 0 <<< 1)
      rw [hzero]

end Keys

/-- A block is decrypted to what was encrypted with the same password in another place of the
memory, in both orders, and no position is outside the block. -/
def Right (size : BlockSize) (password : Password) : Prop :=
  ∀ (first second : Nat → UInt8) (block : Block),
    (∃ encrypted, o_fil_crypt size (set_crypt size password first) block = some encrypted ∧
      i_fil_crypt size (set_crypt size password second) encrypted = some block) ∧
    ∃ encrypted, i_fil_crypt size (set_crypt size password first) block = some encrypted ∧
      o_fil_crypt size (set_crypt size password second) encrypted = some block

theorem i_fil_crypt_outside (hstep : size.blocksize ≤ crypt.crypt_step) (block : Block) :
    i_fil_crypt size crypt block = none := by
  obtain ⟨rest, hrest⟩ := Nat.exists_eq_succ_of_ne_zero (Nat.ne_of_gt (@blocksize_pos size))
  rw [i_fil_crypt, hrest, inputLoop, if_neg (Nat.not_lt_of_le hstep)]

theorem condition_of_right {password : Password} (hright : Right size password) :
    (xorBytes password.chars).toNat < 128 ∧ 4 * (xorBytes password.chars).toNat < size.blocksize ∧
      2 ≤ size.blocksize ∧ (password.chars ≠ [] ∨ size.blocksize = 2) := by
  have hstep : (set_crypt size password fun _ => 0).crypt_step < size.blocksize := by
    refine Nat.lt_of_not_le fun hle => ?_
    obtain ⟨-, encrypted, hinput, -⟩ := hright (fun _ => 0) (fun _ => 0) fun _ => 0
    rw [i_fil_crypt_outside hle] at hinput
    exact absurd hinput (by simp)
  obtain ⟨hsign, hfour, htwo⟩ := crypt_step_lt_iff.mp hstep
  refine ⟨hsign, hfour, htwo, ?_⟩
  by_contra hnot
  obtain ⟨hempty, hsize⟩ := not_or.mp hnot
  -- the third byte of the key is read behind the empty password
  have hlarge : 2 < size.blocksize := Nat.lt_of_le_of_ne htwo (Ne.symm hsize)
  have hkeys := @keys_of_inverse size _ (set_crypt size password fun _ => 1) hstep
    crypt_step_coprime rfl (fun block => (hright (fun _ => 0) (fun _ => 1) block).1) 2 hlarge
  have hnil : password.chars = [] := not_not.mp hempty
  simp [set_crypt, cryptXor, Password.byte, hnil, XOR_SIZE] at hkeys

/-- The block size of the database file. -/
def fileBlocks : BlockSize := ⟨12, by decide⟩

/-- The password of one character with the code 233. -/
def accentedPassword : Password := ⟨[233], by decide +kernel⟩

end Sql602.Encryption
