import ByteMachine.Binary64.Text
import ByteMachine.Bytes
import ByteMachine.Numeral

/-! The three types of value, their little-endian bytes and their texts. -/
namespace ByteMachine

inductive Ty where
  | byte
  | int
  | float
deriving DecidableEq

namespace Ty

def all : List Ty := [.byte, .int, .float]

abbrev Val : Ty → Type
  | byte => UInt8
  | int => Int64
  | float => Binary64

instance : (t : Ty) → DecidableEq t.Val
  | byte => inferInstanceAs (DecidableEq UInt8)
  | int => inferInstanceAs (DecidableEq Int64)
  | float => inferInstanceAs (DecidableEq Binary64)

def width : Ty → Nat
  | byte => 1
  | int | float => 8

def name : Ty → String
  | byte => "byte"
  | int => "int"
  | float => "float"

/-- The place of a type within a family of opcodes. -/
def index : Ty → Nat
  | byte => 0
  | int => 1
  | float => 2

def ofIndex? (n : Nat) : Option Ty := all[n]?

theorem ofIndex?_index (t : Ty) : ofIndex? t.index = some t := by cases t <;> rfl

theorem width_pos (t : Ty) : 0 < t.width := by cases t <;> decide

theorem width_le (t : Ty) : t.width ≤ 8 := by cases t <;> decide

def encode : (t : Ty) → t.Val → List UInt8
  | byte, b => [b]
  | int, n => Bytes.ofNat 8 n.toUInt64.toNat
  | float, x => Bytes.ofNat 8 x.bits.toNat

/-- Meant for lists of the right length. -/
def decode : (t : Ty) → List UInt8 → t.Val
  | byte, bs => bs.headD 0
  | int, bs => (UInt64.ofNat (Bytes.toNat bs)).toInt64
  | float, bs => ⟨UInt64.ofNat (Bytes.toNat bs)⟩

/-- A byte is taken from the front; the wider types need exactly their width. -/
def decode? (t : Ty) (bs : List UInt8) : Option t.Val :=
  match t with
  | byte => bs.head?
  | int => if bs.length = 8 then some (decode int bs) else none
  | float => if bs.length = 8 then some (decode float bs) else none

theorem length_encode {t : Ty} (v : t.Val) : (t.encode v).length = t.width := by
  cases t <;> simp [encode, width]

private theorem toNat_ofNat_word (w : UInt64) : Bytes.toNat (Bytes.ofNat 8 w.toNat) = w.toNat := by
  rw [Bytes.toNat_ofNat]
  exact Nat.mod_eq_of_lt w.toNat_lt

private theorem ofNat_toNat_word {bs : List UInt8} (h : bs.length = 8) :
    Bytes.ofNat 8 (UInt64.ofNat (Bytes.toNat bs)).toNat = bs := by
  have lt := Bytes.toNat_lt bs
  rw [h] at lt
  rw [UInt64.toNat_ofNat_of_lt' lt, ← h, Bytes.ofNat_toNat]

theorem decode_encode {t : Ty} (v : t.Val) : t.decode (t.encode v) = v := by
  cases t with
  | byte => rfl
  | int => simp [encode, decode, toNat_ofNat_word]
  | float => simp [encode, decode, toNat_ofNat_word]

theorem encode_decode {t : Ty} {bs : List UInt8} (h : bs.length = t.width) :
    t.encode (t.decode bs) = bs := by
  cases t with
  | byte => obtain ⟨b, rfl⟩ := List.length_eq_one_iff.1 h; rfl
  | int => simpa [encode, decode] using ofNat_toNat_word h
  | float => simpa [encode, decode] using ofNat_toNat_word h

/-- The zero test of conditional jumps: negative zero counts and NaN does not. -/
def isZero : (t : Ty) → t.Val → Bool
  | byte, b => b == 0
  | int, n => n == 0
  | float, x => x.isZero

def text : (t : Ty) → t.Val → String
  | byte, b => "0x" ++ Numeral.hex 2 b.toNat
  | int, n => toString n.toInt
  | float, x => x.text

end Ty

structure Value where
  {ty : Ty}
  val : ty.Val
deriving DecidableEq

namespace Value

abbrev int (n : Int64) : Value := @mk .int n

def encode (v : Value) : List UInt8 := v.ty.encode v.val

def isZero (v : Value) : Bool := v.ty.isZero v.val

def text (v : Value) : String := v.ty.text v.val

theorem length_encode (v : Value) : v.encode.length = v.ty.width := Ty.length_encode v.val

end Value
end ByteMachine
