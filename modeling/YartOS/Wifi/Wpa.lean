import YartOS.Lib.Octets

/-! The key derivation of WPA2 and the AES key wrap. Block cipher and HMAC-SHA1 are parameters. -/
namespace YartOS.Wifi

open Function Octets List

abbrev Frame := List UInt8

abbrev Mac := Octets 6

/-- The functions of the kernel this model does not look into. -/
structure Primitives where
  aesEncrypt : (key block : Octets 16) → Octets 16
  aesDecrypt : (key block : Octets 16) → Octets 16
  hmacSha1 : (key msg : List UInt8) → Octets 20

def Primitives.Inverse (P : Primitives) : Prop := ∀ key block, P.aesDecrypt key (P.aesEncrypt key block) = block

variable (P : Primitives)

def stretch (block : Nat → Octets 20) (n : Nat) : Octets n :=
  field ((range ((n + 19) / 20)).flatMap fun k => (block k).val) 0 n

/-- One block of the key, after the first of its iterations. -/
def pbkdf2Iterate (passphrase : List UInt8) : Nat → Octets 20 → Octets 20 → Octets 20
  | 0, _, t => t
  | i + 1, u, t =>
    pbkdf2Iterate passphrase i (P.hmacSha1 passphrase u.val) (t.xor (P.hmacSha1 passphrase u.val))

def pbkdf2Block (passphrase salt : List UInt8) (iterations block : Nat) : Octets 20 :=
  let u := P.hmacSha1 passphrase
    (salt ++ [(block / 2 ^ 24).toUInt8, (block / 2 ^ 16).toUInt8, (block / 2 ^ 8).toUInt8, block.toUInt8])
  pbkdf2Iterate P passphrase (iterations - 1) u u

def pbkdf2HmacSha1 (passphrase salt : List UInt8) (iterations outlen : Nat) : Octets outlen :=
  stretch (fun k => pbkdf2Block P passphrase salt iterations (k + 1)) outlen

attribute [irreducible] pbkdf2HmacSha1

def wpaPrf (key : List UInt8) (label : String) (data : List UInt8) (outLen : Nat) : Octets outLen :=
  stretch (fun counter => P.hmacSha1 key (label.toUTF8.toList ++ [0] ++ data ++ [counter.toUInt8])) outLen

/-- The smaller of two byte strings comes first. -/
def inOrder (a b : List UInt8) : List UInt8 := if a < b then a ++ b else b ++ a

def wpaPtkDerive (pmk : Octets 32) (aa spa : Mac) (anonce snonce : Octets 32) : Octets 48 :=
  wpaPrf P pmk.val "Pairwise key expansion" (inOrder aa.val spa.val ++ inOrder anonce.val snonce.val) 48

def wpaEapolMic (kck : Octets 16) (frame : List UInt8) : Octets 16 := (P.hmacSha1 kck.val frame).part 0 16

structure Wrap (n : Nat) where
  a : Octets 8
  r : Fin n → Octets 8

namespace Wrap

variable {n : Nat}

/-- One round of `aes_key_wrap` on the register `i`, counted by `t`. -/
def wrap (kek : Octets 16) (w : Wrap n) (t : Nat) (i : Fin n) : Wrap n :=
  let enc := P.aesEncrypt kek (w.a.append (w.r i))
  { a := (enc.part 0 8).xor (put64 t), r := update w.r i (enc.part 8 8) }

def unwrap (kek : Octets 16) (w : Wrap n) (t : Nat) (i : Fin n) : Wrap n :=
  let dec := P.aesDecrypt kek ((w.a.xor (put64 t)).append (w.r i))
  { a := dec.part 0 8, r := update w.r i (dec.part 8 8) }

/-- The rounds of `aes_key_wrap`; `aes_key_unwrap` makes them backwards. -/
def rounds (n : Nat) : List (Nat × Fin n) :=
  (range 6).flatMap fun j => (finRange n).map fun i => (n * j + (i.val + 1), i)

def wrapAll (kek : Octets 16) (rounds : List (Nat × Fin n)) (w : Wrap n) : Wrap n :=
  rounds.foldl (fun w round => w.wrap P kek round.1 round.2) w

def unwrapAll (kek : Octets 16) (rounds : List (Nat × Fin n)) (w : Wrap n) : Wrap n :=
  rounds.foldl (fun w round => w.unwrap P kek round.1 round.2) w

end Wrap

def registers (data : List UInt8) (n : Nat) : Fin n → Octets 8 := fun i => Octets.field data (8 * i) 8

def wrapIv : Octets 8 := ⟨replicate 8 0xa6, rfl⟩

def aesKeyWrap (kek : Octets 16) (pt : List UInt8) (n : Nat) : List UInt8 :=
  let w := Wrap.wrapAll P kek (Wrap.rounds n) ⟨wrapIv, registers pt n⟩
  w.a.val ++ Octets.join (ofFn w.r)

/-- Whether the initial value came out, and the bytes. -/
def aesKeyUnwrap (kek : Octets 16) (ct : List UInt8) (n : Nat) : Bool × List UInt8 :=
  let w := Wrap.unwrapAll P kek (Wrap.rounds n).reverse ⟨Octets.field ct 0 8, registers (ct.drop 8) n⟩
  (w.a == wrapIv, Octets.join (ofFn w.r))

section Inverse

variable {P} {n : Nat} (inverse : P.Inverse)

include inverse in
lemma Wrap.unwrap_wrap (kek : Octets 16) (w : Wrap n) (t : Nat) (i : Fin n) :
    (w.wrap P kek t i).unwrap P kek t i = w := by
  simp only [wrap, unwrap, xor_xor, update_self, update_idem]
  rw [append_part, inverse, part_append_left, part_append_right, update_eq_self]

include inverse in
/-- The rounds made backwards undo the rounds. -/
lemma Wrap.unwrapAll_wrapAll (kek : Octets 16) (rounds : List (Nat × Fin n)) (w : Wrap n) :
    unwrapAll P kek rounds.reverse (wrapAll P kek rounds w) = w := by
  unfold unwrapAll wrapAll
  induction rounds generalizing w with
  | nil => rfl
  | cons round rounds ih =>
    rw [foldl_cons, reverse_cons, foldl_append, ih, foldl_cons, foldl_nil, unwrap_wrap inverse]

lemma registers_join (r : Fin n → Octets 8) : registers (join (List.ofFn r)) n = r := by
  funext i
  have hAt : i.val < (List.ofFn r).length := by simp
  have h := field_join hAt
  rw [List.getElem_ofFn] at h
  exact h

include inverse in
lemma aesKeyUnwrap_aesKeyWrap (kek : Octets 16) {pt : List UInt8} (h : pt.length = 8 * n) :
    aesKeyUnwrap P kek (aesKeyWrap P kek pt n) n = (true, pt) := by
  have hRead : ∀ w : Wrap n, (⟨field (w.a.val ++ join (List.ofFn w.r)) 0 8,
      registers ((w.a.val ++ join (List.ofFn w.r)).drop 8) n⟩ : Wrap n) = w := by
    intro w
    have hA : field (w.a.val ++ join (ofFn w.r)) 0 8 = w.a := field_eq [] _ rfl rfl
    rw [drop_left' w.a.2, registers_join, hA]
  unfold aesKeyUnwrap aesKeyWrap
  simp only [hRead]
  rw [Wrap.unwrapAll_wrapAll inverse]
  exact Prod.ext (beq_self_eq_true wrapIv) (join_fields h)

end Inverse

end YartOS.Wifi
