import Mathlib.Tactic.Lemma
import Mathlib.Logic.Function.Basic

/-!
# Base64 over any alphabet

Bytes are encoded six bits at a time, most significant first; the last one or
two bytes give two or three characters, which padding fills up to four. Decoding
sees the low byte of each UTF-16 unit, stops at padding and drops every other byte
outside the alphabet and an incomplete last byte, so padding is never needed. The
development is generic in the alphabet, which carries the inverse it needs.
-/

namespace Base64

structure Alphabet where
  char : Nat → Char
  sextet : Char → Option Nat
  sextet_char : ∀ n, n < 64 → sextet (char n) = some n
  sextet_pad : sextet '=' = none
  sextet_byte : ∀ c, (sextet c).isSome = true → c.toNat < 256

/-- The sextets of a byte string. -/
def sextets : List UInt8 → List Nat
  | [] => []
  | [a] => [a.toNat / 4, a.toNat % 4 * 16]
  | [a, b] => [a.toNat / 4, a.toNat % 4 * 16 + b.toNat / 16, b.toNat % 16 * 4]
  | a :: b :: c :: rest =>
    a.toNat / 4 :: (a.toNat % 4 * 16 + b.toNat / 16) ::
      (b.toNat % 16 * 4 + c.toNat / 64) :: c.toNat % 64 :: sextets rest

/-- The bytes of a sextet string. -/
def bytes : List Nat → List UInt8
  | w :: x :: y :: z :: rest =>
    UInt8.ofNat (w * 4 + x / 16) :: UInt8.ofNat (x % 16 * 16 + y / 4) ::
      UInt8.ofNat (y % 4 * 64 + z) :: bytes rest
  | [w, x, y] => [UInt8.ofNat (w * 4 + x / 16), UInt8.ofNat (x % 16 * 16 + y / 4)]
  | [w, x] => [UInt8.ofNat (w * 4 + x / 16)]
  | _ => []

lemma ofNat_of_eq {n : Nat} {a : UInt8} (h : n = a.toNat) : UInt8.ofNat n = a := by
  subst h
  simp

theorem bytes_sextets (bs : List UInt8) : bytes (sextets bs) = bs := by
  induction bs using sextets.induct with
  | case1 => rfl
  | case2 a =>
    have ha := a.toNat_lt
    simp only [sextets, bytes, List.cons.injEq, and_true]
    exact ofNat_of_eq (by omega)
  | case3 a b =>
    have ha := a.toNat_lt
    have hb := b.toNat_lt
    simp only [sextets, bytes, List.cons.injEq, and_true]
    exact ⟨ofNat_of_eq (by omega), ofNat_of_eq (by omega)⟩
  | case4 a b c rest ih =>
    have ha := a.toNat_lt
    have hb := b.toNat_lt
    have hc := c.toNat_lt
    simp only [sextets, bytes, List.cons.injEq, ih, and_true]
    exact ⟨ofNat_of_eq (by omega), ofNat_of_eq (by omega), ofNat_of_eq (by omega)⟩

lemma sextets_lt (bs : List UInt8) : ∀ n ∈ sextets bs, n < 64 := by
  induction bs using sextets.induct with
  | case1 => simp [sextets]
  | case2 a =>
    have ha := a.toNat_lt
    simp only [sextets, List.mem_cons, List.not_mem_nil, or_false, forall_eq_or_imp, forall_eq]
    omega
  | case3 a b =>
    have ha := a.toNat_lt
    have hb := b.toNat_lt
    simp only [sextets, List.mem_cons, List.not_mem_nil, or_false, forall_eq_or_imp, forall_eq]
    omega
  | case4 a b c rest ih =>
    have ha := a.toNat_lt
    have hb := b.toNat_lt
    have hc := c.toNat_lt
    simp only [sextets, List.mem_cons, forall_eq_or_imp]
    exact ⟨by omega, by omega, by omega, by omega, ih⟩

lemma length_bytes (ns : List Nat) : (bytes ns).length = ns.length * 3 / 4 := by
  induction ns using bytes.induct with
  | case1 w x y z rest ih =>
    simp only [bytes, List.length_cons, ih]
    omega
  | case2 => simp [bytes]
  | case3 => simp [bytes]
  | case4 ns long three two =>
    rcases ns with _ | ⟨w, _ | ⟨x, _ | ⟨y, _ | ⟨z, rest⟩⟩⟩⟩
    · rfl
    · simp [bytes]
    · exact absurd rfl (two w x)
    · exact absurd rfl (three w x y)
    · exact absurd rfl (long w x y z rest)

variable (A : Alphabet)

def encode (bs : List UInt8) : String := String.ofList ((sextets bs).map A.char)

/-- As many `=` as complete the last group of four characters. -/
def padding (bs : List UInt8) : List Char := List.replicate ((3 - bs.length % 3) % 3) '='

def encodePadded (bs : List UInt8) : String :=
  String.ofList ((encode A bs).toList ++ padding bs)

/-- The low bytes of the UTF-16 units of a character. -/
def lowBytes (c : Char) : List Char :=
  if c.toNat < 0x10000 then [Char.ofNat (c.toNat % 256)]
  else
    let point := c.toNat - 0x10000
    [Char.ofNat (point / 1024 % 256), Char.ofNat (point % 256)]

def decode (s : String) : List UInt8 :=
  bytes (((s.toList.flatMap lowBytes).takeWhile (· ≠ '=')).filterMap A.sextet)

lemma lowBytes_byte {c : Char} (byte : c.toNat < 256) : lowBytes c = [c] := by
  rw [lowBytes, if_pos (by omega), Nat.mod_eq_of_lt byte, Char.ofNat_toNat]

lemma flatMap_lowBytes {cs : List Char} (byte : ∀ c ∈ cs, c.toNat < 256) :
    cs.flatMap lowBytes = cs := by
  induction cs with
  | nil => rfl
  | cons c cs ih =>
    rw [List.flatMap_cons, lowBytes_byte (byte c List.mem_cons_self),
      ih fun d hd => byte d (List.mem_cons_of_mem c hd), List.singleton_append]

lemma char_byte {n : Nat} (h : n < 64) : (A.char n).toNat < 256 := by
  refine A.sextet_byte _ ?_
  rw [A.sextet_char n h, Option.isSome_some]

lemma char_ne_pad {n : Nat} (h : n < 64) : A.char n ≠ '=' := by
  intro pad
  have back := A.sextet_char n h
  rw [pad, A.sextet_pad] at back
  cases back

lemma decode_chars (bs : List UInt8) (pads : List Char) (isPad : ∀ c ∈ pads, c = '=') :
    decode A (String.ofList ((sextets bs).map A.char ++ pads)) = bs := by
  have back : ∀ ns : List Nat, (∀ n ∈ ns, n < 64) →
      ((ns.map A.char ++ pads).takeWhile (· ≠ '=')).filterMap A.sextet = ns := by
    intro ns hns
    induction ns with
    | nil =>
      cases pads with
      | nil => rfl
      | cons c pads => simp [isPad c List.mem_cons_self]
    | cons n ns ih =>
      have small := hns n List.mem_cons_self
      have kept : decide (A.char n ≠ '=') = true := decide_eq_true (char_ne_pad A small)
      rw [List.map_cons, List.cons_append, List.takeWhile_cons, if_pos kept,
        List.filterMap_cons_some (A.sextet_char n small),
        ih fun m hm => hns m (List.mem_cons_of_mem n hm)]
  have byte : ∀ c ∈ (sextets bs).map A.char ++ pads, c.toNat < 256 := by
    intro c hc
    rcases List.mem_append.mp hc with written | pad
    · obtain ⟨n, hn, rfl⟩ := List.mem_map.mp written
      exact char_byte A (sextets_lt bs n hn)
    · rw [isPad c pad]
      decide
  rw [decode, String.toList_ofList, flatMap_lowBytes byte, back _ (sextets_lt bs), bytes_sextets]

/-- Decoding inverts encoding on every byte string. -/
theorem decode_encode (bs : List UInt8) : decode A (encode A bs) = bs := by
  simpa [encode] using decode_chars A bs [] (by simp)

theorem decode_encodePadded (bs : List UInt8) : decode A (encodePadded A bs) = bs := by
  rw [encodePadded, encode, String.toList_ofList]
  exact decode_chars A bs _ fun c hc => List.eq_of_mem_replicate hc

/-- A text in the alphabet decodes to three bytes for each four characters. -/
lemma length_decode {cs : List Char} (letters : ∀ c ∈ cs, (A.sextet c).isSome = true) :
    (decode A (String.ofList cs)).length = cs.length * 3 / 4 := by
  have all : ((cs.takeWhile (· ≠ '=')).filterMap A.sextet).length = cs.length := by
    induction cs with
    | nil => rfl
    | cons c cs ih =>
      obtain ⟨n, hn⟩ := Option.isSome_iff_exists.mp (letters c List.mem_cons_self)
      have kept : decide (c ≠ '=') = true := by
        refine decide_eq_true ?_
        rintro rfl
        rw [A.sextet_pad] at hn
        cases hn
      rw [List.takeWhile_cons, if_pos kept, List.filterMap_cons_some hn, List.length_cons,
        List.length_cons, ih fun d hd => letters d (List.mem_cons_of_mem c hd)]
  rw [decode, String.toList_ofList, flatMap_lowBytes fun c hc => A.sextet_byte c (letters c hc),
    length_bytes, all]

theorem encode_injective : Function.Injective (encode A) :=
  Function.LeftInverse.injective (decode_encode A)

/-- Only characters of the alphabet are written. -/
theorem mem_encode {c : Char} {bs : List UInt8} (h : c ∈ (encode A bs).toList) :
    ∃ n, n < 64 ∧ A.char n = c := by
  simp only [encode, String.toList_ofList, List.mem_map] at h
  obtain ⟨n, hn, rfl⟩ := h
  exact ⟨n, sextets_lt bs n hn, rfl⟩

end Base64
