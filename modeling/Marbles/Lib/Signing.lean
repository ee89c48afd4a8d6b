import Mathlib.Data.List.Basic

/-!
# Signatures, digests and text encodings

The parts of a cryptographic library that a program calls: a signature scheme, a digest
and encodings of byte strings as texts. Each is a record of operations. That they work is
a proposition of its own, `Scheme.Correct` and `Codec.RoundTrips`, so that a result which
does not depend on it is stated without it.
-/

namespace Signing

/-- A byte string. -/
abbrev Bytes := List UInt8

/-! ### Hexadecimal texts -/

/-- The two lower-case hexadecimal digits of a byte. -/
def hexDigits (b : UInt8) : List Char :=
  [Nat.digitChar (b.toNat / 16), Nat.digitChar (b.toNat % 16)]

/-- A byte string in lower-case hexadecimal. -/
def hex (bytes : Bytes) : String := String.ofList (bytes.flatMap hexDigits)

/-- The digits a hexadecimal text is made of. -/
def hexAlphabet : List Char := "0123456789abcdef".toList

theorem digitChar_inj {m n : Nat} (hm : m < 16) (hn : n < 16)
    (h : Nat.digitChar m = Nat.digitChar n) : m = n := by
  have hall : ∀ m < 16, ∀ n < 16, Nat.digitChar m = Nat.digitChar n → m = n := by decide
  exact hall m hm n hn h

theorem digitChar_mem_alphabet {n : Nat} (hn : n < 16) : Nat.digitChar n ∈ hexAlphabet := by
  have hall : ∀ n < 16, Nat.digitChar n ∈ hexAlphabet := by decide
  exact hall n hn

theorem hexDigits_inj {a b : UInt8} (h : hexDigits a = hexDigits b) : a = b := by
  have ha := a.toNat_lt
  have hb := b.toNat_lt
  simp only [hexDigits, List.cons.injEq, and_true] at h
  have hhigh := digitChar_inj (by omega) (by omega) h.1
  have hlow := digitChar_inj (by omega) (by omega) h.2
  exact UInt8.toNat_inj.mp (by omega)

@[simp] theorem toList_hex (bytes : Bytes) : (hex bytes).toList = bytes.flatMap hexDigits := by
  simp [hex]

/-- Two byte strings with the same hexadecimal text are the same. -/
theorem hex_injective : Function.Injective hex := by
  have hlists : ∀ xs ys : Bytes, xs.flatMap hexDigits = ys.flatMap hexDigits → xs = ys := by
    intro xs
    induction xs with
    | nil =>
        intro ys h
        cases ys with
        | nil => rfl
        | cons y ys => simp [hexDigits] at h
    | cons x xs ih =>
        intro ys h
        cases ys with
        | nil => simp [hexDigits] at h
        | cons y ys =>
            rw [List.flatMap_cons, List.flatMap_cons] at h
            obtain ⟨hx, hxs⟩ := List.append_inj h rfl
            rw [hexDigits_inj hx, ih ys hxs]
  intro xs ys h
  exact hlists xs ys (by rw [← toList_hex, ← toList_hex, h])

theorem mem_alphabet_of_mem_hex {bytes : Bytes} {ch : Char} (h : ch ∈ (hex bytes).toList) :
    ch ∈ hexAlphabet := by
  rw [toList_hex, List.mem_flatMap] at h
  obtain ⟨b, -, hb⟩ := h
  have hlt := b.toNat_lt
  simp only [hexDigits, List.mem_cons, List.not_mem_nil, or_false] at hb
  rcases hb with rfl | rfl
  · exact digitChar_mem_alphabet (by omega)
  · exact digitChar_mem_alphabet (by omega)

/-- A hexadecimal text is all zeros exactly when its bytes are. -/
@[simp] theorem all_zero_hex {bytes : Bytes} :
    (hex bytes).toList.all (· = '0') = bytes.all (· = 0) := by
  have hdigit : ∀ n < 16, (Nat.digitChar n = '0') ↔ n = 0 := by decide
  rw [toList_hex]
  induction bytes with
  | nil => rfl
  | cons b bytes ih =>
      have hlt := b.toNat_lt
      have hb : (hexDigits b).all (· = '0') = decide (b = 0) := by
        rw [Bool.eq_iff_iff]
        simp only [hexDigits, List.all_cons, List.all_nil, Bool.and_true, Bool.and_eq_true,
          decide_eq_true_eq, hdigit _ (show b.toNat / 16 < 16 by omega),
          hdigit _ (show b.toNat % 16 < 16 by omega), ← UInt8.toNat_inj]
        show b.toNat / 16 = 0 ∧ b.toNat % 16 = 0 ↔ b.toNat = 0
        omega
      rw [List.flatMap_cons, List.all_append, hb, ih, List.all_cons]

/-! ### Encodings and signatures -/

/-- An encoding of byte strings as texts; a text need not be the code of anything. -/
structure Codec where
  encode : Bytes → String
  decode : String → Except String Bytes

/-- What was encoded decodes to itself. -/
def Codec.RoundTrips (c : Codec) : Prop := ∀ bytes, c.decode (c.encode bytes) = .ok bytes

/-- A signature scheme as a library offers it: keys are handles, made from their bytes and
turned back into them; every call can fail with a text. -/
structure Scheme where
  Secret : Type
  Public : Type
  /-- The raw public half of a key pair. -/
  publicBytes : Secret → Bytes
  publicKey : Bytes → Except String Public
  /-- A key pair in the form it is stored in. -/
  secretBytes : Secret → Bytes
  secretKey : Bytes → Except String Secret
  sign : Secret → String → Except String Bytes
  verify : Public → Bytes → String → Except String Bool

namespace Scheme

/-- The signature of the text verifies under the key with these raw bytes. -/
def Valid (s : Scheme) (key signature : Bytes) (payload : String) : Prop :=
  ∃ handle, s.publicKey key = .ok handle ∧ s.verify handle signature payload = .ok true

/-- Stored keys are read back, signing succeeds and its signatures verify. -/
structure Correct (s : Scheme) : Prop where
  secretKey_secretBytes : ∀ k, s.secretKey (s.secretBytes k) = .ok k
  sign_ok : ∀ k payload, ∃ signature, s.sign k payload = .ok signature
  valid_sign : ∀ {k payload signature}, s.sign k payload = .ok signature →
    s.Valid (s.publicBytes k) signature payload

end Scheme

end Signing
