import Switchboard.Proofs.Octet.VarInt
import Switchboard.Identity
import Switchboard.Buffer.Basic

/-!
# What a reader takes

`Reads r s a` says that `r` takes exactly the octets `s` for `a`, whatever octets
follow. Values carry no tags, so a composite value is read back only because each of
its parts is taken to its last octet and not beyond: `Reads.bind` joins the parts.
-/

namespace Switchboard

namespace Reader

variable {α β : Type}

/-- The reader takes `s` for `a` and leaves what follows. -/
def Reads (r : Reader α) (s : List UInt8) (a : α) : Prop :=
  ∀ rest, r.on (s ++ rest) = (.ok a, rest)

theorem on_bind (r : Reader α) (f : α → Reader β) (s : List UInt8) :
    (r >>= f).on s = match r.on s with
      | (.ok a, s) => (f a).on s
      | (.error e, s) => (.error e, s) := by
  cases h : r s with
  | mk outcome s' =>
    simp only [on, bind, ExceptT.bind, ExceptT.mk, StateT.bind, h]
    cases outcome with
    | ok a => rfl
    | error e => rfl

namespace Reads

theorem pure (a : α) : Reads (Pure.pure a) [] a := fun _ => rfl

/-- Two readers in turn take what they take one after the other. -/
theorem bind {r : Reader α} {f : α → Reader β} {s t : List UInt8} {a : α} {b : β}
    (hr : Reads r s a) (hf : Reads (f a) t b) : Reads (r >>= f) (s ++ t) b := by
  intro rest
  rw [on_bind, List.append_assoc, hr]
  exact hf rest

theorem map {r : Reader α} {s : List UInt8} {a : α} (f : α → β) (hr : Reads r s a) :
    Reads (r >>= fun a => Pure.pure (f a)) s (f a) := by
  intro rest
  rw [on_bind, hr]
  rfl

end Reads

theorem reads_take (s : List UInt8) : Reads (take s.length) s s := by
  intro rest
  simp [take, on]

/-- So many octets hold each number below the modulus. -/
theorem reads_word (size n : Nat) (h : n < Octet.modulus size) :
    Reads (word size) (Octet.bigEndian size n) n := by
  have ht := reads_take (Octet.bigEndian size n)
  rw [Octet.length_bigEndian] at ht
  have hv : Octet.value (Octet.bigEndian size n) = n := by
    rw [Octet.value_bigEndian, Nat.mod_eq_of_lt h]
  have hm := ht.map Octet.value
  rwa [hv] at hm

theorem reads_u8 (n : UInt8) : Reads u8 (Octet.bigEndian 1 n.toNat) n := by
  have h := (reads_word 1 n.toNat n.toNat_lt).map UInt8.ofNat
  rwa [UInt8.ofNat_toNat] at h

theorem reads_u16 (n : UInt16) : Reads u16 (Octet.bigEndian 2 n.toNat) n := by
  have h := (reads_word 2 n.toNat n.toNat_lt).map UInt16.ofNat
  rwa [UInt16.ofNat_toNat] at h

theorem reads_u32 (n : UInt32) : Reads u32 (Octet.bigEndian 4 n.toNat) n := by
  have h := (reads_word 4 n.toNat n.toNat_lt).map UInt32.ofNat
  rwa [UInt32.ofNat_toNat] at h

theorem reads_u64 (n : UInt64) : Reads u64 (Octet.bigEndian 8 n.toNat) n := by
  have h := (reads_word 8 n.toNat n.toNat_lt).map UInt64.ofNat
  rwa [UInt64.ofNat_toNat] at h

theorem reads_i8 (n : Int8) : Reads i8 (Octet.bigEndian 1 n.toUInt8.toNat) n :=
  (reads_u8 n.toUInt8).map UInt8.toInt8

theorem reads_i16 (n : Int16) : Reads i16 (Octet.bigEndian 2 n.toUInt16.toNat) n :=
  (reads_u16 n.toUInt16).map UInt16.toInt16

theorem reads_i32 (n : Int32) : Reads i32 (Octet.bigEndian 4 n.toUInt32.toNat) n :=
  (reads_u32 n.toUInt32).map UInt32.toInt32

theorem reads_i64 (n : Int64) : Reads i64 (Octet.bigEndian 8 n.toUInt64.toNat) n :=
  (reads_u64 n.toUInt64).map UInt64.toInt64

theorem reads_bool (b : Bool) : Reads bool [if b then 1 else 0] b := by
  cases b
  · exact (reads_u8 0).map (· != 0)
  · exact (reads_u8 1).map (· != 0)

theorem reads_char (c : Char) : Reads char (Octet.bigEndian 4 c.val.toNat) c := by
  intro rest
  rw [char, on_bind, reads_u32 c.val]
  simp only [dif_pos c.valid]
  rfl

theorem reads_identity (id : Identity) : Reads Identity.reader id.octets id :=
  (reads_u64 id.high).bind ((reads_u64 id.low).map (Identity.mk id.high))

theorem reads_varNat (w : VarInt.Width) (n : Nat) (h : n < 2 ^ w.bits) :
    Reads (varNat w) (VarInt.encode n) n := by
  intro rest
  have hp := VarInt.peek_encode w n h rest
  simp [varNat, on, hp]

theorem reads_varInt (n : Nat) (h : n < UInt32.size) :
    Reads varInt (VarInt.encode n) (UInt32.ofNat n) :=
  (reads_varNat .int n h).map UInt32.ofNat

theorem reads_varLong (n : Nat) (h : n < UInt64.size) :
    Reads varLong (VarInt.encode n) (UInt64.ofNat n) :=
  (reads_varNat .long n h).map UInt64.ofNat

theorem reads_lengthPrefix (n : Nat) (h : n < UInt32.size) :
    Reads varInt (lengthPrefix n) (UInt32.ofNat n) := by
  have he : min n (UInt32.size - 1) = n := by omega
  rw [lengthPrefix, he]
  exact reads_varInt n h

theorem reads_block (s : List UInt8) (h : s.length < UInt32.size) :
    Reads block (Switchboard.block s) s := by
  refine (reads_lengthPrefix s.length h).bind ?_
  rw [UInt32.toNat_ofNat_of_lt' h]
  exact reads_take s

theorem reads_text (text : String) (h : (Utf8.encode text).length < UInt32.size) :
    Reads Reader.text (Switchboard.block (Utf8.encode text)) text := by
  intro rest
  rw [Reader.text, on_bind, reads_block _ h]
  simp only [Utf8.decode_encode]
  rfl

theorem reads_buffer (s : List UInt8) (h : s.length < UInt32.size) :
    Reads buffer (Switchboard.block s) (Buffer.ofBytes s) :=
  (reads_block s h).map Buffer.ofBytes

theorem reads_nullable_none (r : Reader α) : Reads (nullable r) [0] none :=
  (reads_bool false).bind (Reads.pure none)

theorem reads_nullable_some {r : Reader α} {s : List UInt8} {a : α} (h : Reads r s a) :
    Reads (nullable r) (1 :: s) (some a) :=
  (reads_bool true).bind (h.map some)

/-- The values of a list are taken in their order, behind those seen already. -/
theorem reads_timesAfter {r : Reader α} {encode : β → List UInt8} {f : β → α} (vs : List β)
    (h : ∀ v ∈ vs, Reads r (encode v) (f v)) (seen : List α) :
    Reads (timesAfter r seen vs.length) (vs.flatMap encode) (seen.reverse ++ vs.map f) := by
  induction vs generalizing seen with
  | nil =>
    rw [List.map_nil, List.append_nil]
    exact Reads.pure seen.reverse
  | cons v vs ih =>
    intro rest
    have hv := h v (List.mem_cons_self ..) (vs.flatMap encode ++ rest)
    have hvs := ih (fun w hw => h w (List.mem_cons_of_mem v hw)) (f v :: seen) rest
    simp only [on] at hv hvs
    simp [timesAfter, on, hv, hvs]

/-- Values are read back in a row behind their count. -/
theorem reads_counted {r : Reader α} {encode : β → List UInt8} {f : β → α} (vs : List β)
    (h : ∀ v ∈ vs, Reads r (encode v) (f v)) (hlen : vs.length < UInt32.size) :
    Reads (counted r) (lengthPrefix vs.length ++ vs.flatMap encode) (vs.map f) := by
  refine (reads_lengthPrefix vs.length hlen).bind ?_
  rw [UInt32.toNat_ofNat_of_lt' hlen]
  exact reads_timesAfter vs h []

end Reader

end Switchboard
