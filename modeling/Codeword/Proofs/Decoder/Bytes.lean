import Codeword.Fermi.Isa
import Codeword.Proofs.Decoder.Streams
import Codeword.Proofs.Word

namespace Codeword

namespace Word

def lowBytes : Nat → Word → List UInt8
  | 0, _ => []
  | n + 1, word => .ofBitVec (word.setWidth 8) :: lowBytes n (word >>> 8)

def toLittleEndian (word : Word) : List UInt8 := lowBytes 8 word

theorem length_lowBytes (n : Nat) (word : Word) : (lowBytes n word).length = n := by
  induction n generalizing word with
  | zero => rfl
  | succ n ih => rw [lowBytes, List.length_cons, ih]

theorem setWidth_setWidth_eight (word : Word) :
    (word.setWidth 8).setWidth 64 = word &&& lowBits 8 := by
  apply BitVec.eq_of_getLsbD_eq
  intro i hi
  rw [BitVec.getLsbD_setWidth, BitVec.getLsbD_setWidth, BitVec.getLsbD_and, getLsbD_lowBits]
  simp only [hi, decide_true, Bool.true_and, Bool.and_comm]

theorem ofLittleEndian_lowBytes (n : Nat) (word : Word) :
    ofLittleEndian (lowBytes n word) = word &&& lowBits (8 * n) := by
  induction n generalizing word with
  | zero => exact BitVec.and_zero.symm
  | succ n ih =>
      rw [lowBytes, ofLittleEndian, ih, UInt8.toBitVec_ofBitVec, setWidth_setWidth_eight,
        Nat.mul_succ, shiftLeft_or_lowBits]

theorem ofLittleEndian_toLittleEndian (word : Word) :
    ofLittleEndian word.toLittleEndian = word := by
  have hlt : word.toNat < 2 ^ (8 * 8) := word.isLt
  rw [toLittleEndian, ofLittleEndian_lowBytes, and_lowBits_of_toNat_lt hlt]

end Word

namespace Decoder

section Split

variable {n : Nat} (hn : 0 < n) {xs : List UInt8}

theorem splitBytes_of_lt (h : xs.length < n) : splitBytes n hn xs = ([], xs) := by
  rw [splitBytes, if_neg (Nat.not_le.2 h)]

theorem splitBytes_append (h : xs.length = n) (ys : List UInt8) : splitBytes n hn (xs ++ ys) =
    (Word.ofLittleEndian xs :: (splitBytes n hn ys).1, (splitBytes n hn ys).2) := by
  have hle : n ≤ (xs ++ ys).length := by
    rw [List.length_append]
    omega
  rw [splitBytes, if_pos hle, List.take_left' h, List.drop_left' h]

theorem splitBytes_words (h : n = 8) (ws : List Word) (ys : List UInt8) :
    splitBytes n hn (ws.flatMap Word.toLittleEndian ++ ys) =
      (ws ++ (splitBytes n hn ys).1, (splitBytes n hn ys).2) := by
  induction ws with
  | nil => rfl
  | cons w ws ih =>
      have hw : w.toLittleEndian.length = n := (Word.length_lowBytes 8 w).trans h.symm
      rw [List.flatMap_cons, List.append_assoc, splitBytes_append hn hw, ih,
        Word.ofLittleEndian_toLittleEndian]
      rfl

theorem exists_words {k : Nat} (h : xs.length = k * n) : ∃ ws : List Word, ws.length = k ∧
    ∀ ys, splitBytes n hn (xs ++ ys) = (ws ++ (splitBytes n hn ys).1, (splitBytes n hn ys).2) := by
  induction k generalizing xs with
  | zero =>
      have hnil : xs = [] := List.eq_nil_of_length_eq_zero (h.trans (Nat.zero_mul n))
      exact ⟨[], rfl, fun ys => by rw [hnil]; rfl⟩
  | succ k ih =>
      rw [Nat.succ_mul] at h
      have hfirst : (xs.take n).length = n := by
        rw [List.length_take]
        omega
      have hrest : (xs.drop n).length = k * n := by
        rw [List.length_drop]
        omega
      obtain ⟨ws, hws, hsplit⟩ := ih hrest
      refine ⟨Word.ofLittleEndian (xs.take n) :: ws, by rw [List.length_cons, hws], fun ys => ?_⟩
      rw [← List.take_append_drop n xs, List.append_assoc, splitBytes_append hn hfirst,
        hsplit, List.take_append_drop]
      rfl

end Split

variable {d : Decoder} {base : Word} {xs ys : List UInt8}

section Append

variable (hpos : 0 < d.isa.maxLength)

theorem decodeBytes_of_lt (h : xs.length < d.isa.maxLength) : d.decodeBytes xs base =
    if xs = [] then [] else [.error (.truncated base xs.length)] := by
  have hbase := Isa.addressAt_zero d.isa base
  simp only [decodeBytes, splitBytes_of_lt _ h, List.length_nil, hbase]
  rfl

/-- What stands behind whole words is decoded as if it stood alone, from its own address. -/
theorem decodeBytes_append_of_words (ws : List Word)
    (h : splitBytes d.isa.maxLength hpos (xs ++ ys) =
      (ws ++ (splitBytes d.isa.maxLength hpos ys).1, (splitBytes d.isa.maxLength hpos ys).2))
    (base : Word) : d.decodeBytes (xs ++ ys) base =
      d.decodeWords ws base ++ d.decodeBytes ys (d.isa.addressAt base ws.length) := by
  simp only [decodeBytes, h, decodeWords_append, List.length_append, Isa.addressAt_addressAt,
    List.append_assoc]

theorem decodeBytes_append {k : Nat} (h : xs.length = k * d.isa.maxLength) (ys : List UInt8)
    (base : Word) : (d.decodeBytes xs base).length = k ∧ d.decodeBytes (xs ++ ys) base =
      d.decodeBytes xs base ++ d.decodeBytes ys (d.isa.addressAt base k) := by
  obtain ⟨ws, hws, hsplit⟩ := exists_words hpos h
  have hnone : d.decodeBytes [] (d.isa.addressAt base ws.length) = [] :=
    decodeBytes_of_lt hpos hpos
  have hself := decodeBytes_append_of_words hpos ws (hsplit []) base
  rw [List.append_nil, hnone, List.append_nil] at hself
  have hlength : (d.decodeWords ws base).length = k := by
    rw [decodeWords, List.length_mapIdx, hws]
  rw [hself]
  exact ⟨hlength, hws ▸ decodeBytes_append_of_words hpos ws (hsplit ys) base⟩

theorem getElem?_decodeBytes {i : Nat} (h : (i + 1) * d.isa.maxLength ≤ xs.length) (base : Word) :
    (d.decodeBytes xs base)[i]? = some (d.decode
      (Word.ofLittleEndian ((xs.drop (i * d.isa.maxLength)).take d.isa.maxLength))
      (d.isa.addressAt base i)) := by
  rw [Nat.succ_mul] at h
  have hbefore : (xs.take (i * d.isa.maxLength)).length = i * d.isa.maxLength := by
    rw [List.length_take]
    omega
  have hword : ((xs.drop (i * d.isa.maxLength)).take d.isa.maxLength).length = d.isa.maxLength := by
    rw [List.length_take, List.length_drop]
    omega
  obtain ⟨hlength, happend⟩ := decodeBytes_append hpos hbefore (xs.drop (i * d.isa.maxLength)) base
  rw [List.take_append_drop] at happend
  rw [happend, List.getElem?_append_right (Nat.le_of_eq hlength), hlength, Nat.sub_self]
  generalize xs.drop (i * d.isa.maxLength) = rest at hword ⊢
  have hsplit := splitBytes_append hpos hword (rest.drop d.isa.maxLength)
  have hfirst := decodeBytes_append_of_words hpos [_] hsplit (d.isa.addressAt base i)
  rw [List.take_append_drop] at hfirst
  rw [hfirst]
  exact congrArg (fun a => some (d.decode _ a)) (Isa.addressAt_zero d.isa _)

end Append

/-- The little-endian bytes of words are decoded as the words are. A rest that is no word gives one
error, and no word has a part in what is made of another. -/
theorem decodeBytes_eq_decodeWords (h : d.isa.maxLength = 8) (base : Word) :
    (∀ (ws : List Word) (tail : List UInt8), tail.length < 8 →
      d.decodeBytes (ws.flatMap Word.toLittleEndian ++ tail) base = d.decodeWords ws base ++
        if tail = [] then []
        else [.error (.truncated (base + BitVec.ofNat 64 (ws.length * d.isa.stride))
          tail.length)]) ∧
    (∀ xs ys : List UInt8, 8 ∣ xs.length → d.decodeBytes (xs ++ ys) base =
      d.decodeBytes xs base ++
        d.decodeBytes ys (base + BitVec.ofNat 64 (xs.length / 8 * d.isa.stride))) ∧
    ∀ (xs : List UInt8) (i : Nat), (i + 1) * 8 ≤ xs.length → (d.decodeBytes xs base)[i]? =
      some (d.decode (Word.ofLittleEndian ((xs.drop (i * 8)).take 8))
        (base + BitVec.ofNat 64 (i * d.isa.stride))) := by
  have hpos : 0 < d.isa.maxLength := by omega
  refine ⟨fun ws tail htail => ?_, fun xs ys hxs => ?_, fun xs i hi => ?_⟩
  · rw [← h] at htail
    rw [decodeBytes_append_of_words hpos ws (splitBytes_words _ h ws tail),
      decodeBytes_of_lt hpos htail]
    rfl
  · have hlength : xs.length = xs.length / 8 * d.isa.maxLength := by
      rw [h, Nat.div_mul_cancel hxs]
    exact (decodeBytes_append hpos hlength ys base).2
  · rw [← h] at hi ⊢
    exact getElem?_decodeBytes hpos hi base

theorem decodeBytes_eq_decodeWords_wrap :
    let d : Decoder := { isa := Fermi.isa }
    let bytes : List UInt8 := [0xe7, 0x1d, 0, 0, 0, 0, 0, 0x80, 7, 0, 0, 0, 0, 0, 0, 0x50, 1, 2, 3]
    let decoded (bytes : List UInt8) (base : Word) := d.decodeBytes bytes base (by decide)
    d.isa.maxLength = 8 ∧
      decoded bytes 0xfffffffffffffff8 =
        d.decodeWords [0x8000000000001de7, 0x5000000000000007] 0xfffffffffffffff8 ++
          [.error (.truncated 8 3)] ∧
      decoded bytes 0xfffffffffffffff8 =
        decoded (bytes.take 8) 0xfffffffffffffff8 ++ decoded (bytes.drop 8) 0 ∧
      (decoded bytes 0xfffffffffffffff8)[1]? = some (d.decode 0x5000000000000007 0) := by
  intro d bytes decoded
  have hbytes : [0x8000000000001de7, 0x5000000000000007].flatMap Word.toLittleEndian ++ [1, 2, 3] =
      bytes := by decide
  have hstride : d.isa.stride = 8 := rfl
  have hvalue : Word.ofLittleEndian ((bytes.drop (1 * 8)).take 8) = 0x5000000000000007 := by decide
  have hfirst : (bytes.take 8).length / 8 * 8 = 8 := by decide
  have hsecond : (0xfffffffffffffff8 : Word) + BitVec.ofNat 64 8 = 0 := by decide
  have hend : (0xfffffffffffffff8 : Word) + BitVec.ofNat 64 16 = 8 := by decide
  obtain ⟨hwords, happend, hword⟩ :=
    decodeBytes_eq_decodeWords (d := d) rfl 0xfffffffffffffff8
  have hall := hwords [0x8000000000001de7, 0x5000000000000007] [1, 2, 3] (by decide)
  have hparts := happend (bytes.take 8) (bytes.drop 8) (by decide)
  have hone := hword bytes 1 (by decide)
  rw [hbytes, hstride] at hall
  rw [List.take_append_drop, hstride, hfirst, hsecond] at hparts
  rw [hvalue, hstride, Nat.one_mul, hsecond] at hone
  refine ⟨rfl, ?_, hparts, hone⟩
  rw [← hend]
  exact hall

end Decoder

end Codeword
