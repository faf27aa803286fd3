import Mathlib.Data.List.TakeWhile
import Mathlib.Data.List.TakeDrop
import Mathlib.Algebra.Order.Ring.Int

/-! The C data the modelled programs exchange: error numbers, NUL-terminated
strings, fixed-width words in memory order and the output of `snprintf`. A
C string carries the absence of an inner NUL, so two of them are equal exactly
when `strcmp` returns 0. -/
namespace CData

abbrev Bytes := List UInt8

/-- The error numbers the programs test, return or print, with FreeBSD's codes. -/
inductive Errno
  | EPERM | ENOENT | ESRCH | EINTR | EIOERR | E2BIG | ENOMEM | EACCES | EEXIST | EINVAL
  | EPIPE | EAGAIN | EALREADY | EPROTO
  deriving DecidableEq, Repr

namespace Errno

def code : Errno → Nat
  | EPERM => 1
  | ENOENT => 2
  | ESRCH => 3
  | EINTR => 4
  | EIOERR => 5
  | E2BIG => 7
  | ENOMEM => 12
  | EACCES => 13
  | EEXIST => 17
  | EINVAL => 22
  | EPIPE => 32
  | EAGAIN => 35
  | EALREADY => 37
  | EPROTO => 92

def text : Errno → String
  | EPERM => "Operation not permitted"
  | ENOENT => "No such file or directory"
  | ESRCH => "No such process"
  | EINTR => "Interrupted system call"
  | EIOERR => "Input/output error"
  | E2BIG => "Argument list too long"
  | ENOMEM => "Cannot allocate memory"
  | EACCES => "Permission denied"
  | EEXIST => "File exists"
  | EINVAL => "Invalid argument"
  | EPIPE => "Broken pipe"
  | EAGAIN => "Resource temporarily unavailable"
  | EALREADY => "Operation already in progress"
  | EPROTO => "Protocol error"

end Errno

/-- A `char *` that is not NULL, up to its terminator. -/
structure CString where
  bytes : Bytes
  noNul : 0 ∉ bytes
  deriving DecidableEq

namespace CString

def ofBuffer (buffer : Bytes) : CString where
  bytes := buffer.takeWhile (· != 0)
  noNul := by
    intro member
    have kept := List.mem_takeWhile_imp member
    simp at kept

def lit (s : String) : CString := ofBuffer (s.toList.map fun c => UInt8.ofNat c.toNat)

end CString

/-- The four bytes of a `uint32_t` on a little-endian host. -/
def wordBytes (w : UInt32) : Bytes :=
  [UInt8.ofNat w.toNat,UInt8.ofNat (w.toNat / 2^8),UInt8.ofNat (w.toNat / 2^16),
    UInt8.ofNat (w.toNat / 2^24)]

def wordAt (memory : Bytes) (offset : Nat) : UInt32 :=
  let byte i := (memory.getD (offset+i) 0).toNat
  UInt32.ofNat (byte 0 + byte 1 * 2^8 + byte 2 * 2^16 + byte 3 * 2^24)

@[simp] theorem wordBytes_length (w : UInt32) : (wordBytes w).length = 4 := rfl

private theorem bytes_of_word (n : Nat) (bound : n < 2^32) :
    n % 256 + n / 2^8 % 256 * 2^8 + n / 2^16 % 256 * 2^16 + n / 2^24 % 256 * 2^24 = n := by
  omega

private theorem word_of_bytes (a b c d : Nat) (ha : a < 256) (hb : b < 256) (hc : c < 256)
    (hd : d < 256) (n : Nat) (sum : n = a + b*2^8 + c*2^16 + d*2^24) :
    n % 256 = a ∧ n / 2^8 % 256 = b ∧ n / 2^16 % 256 = c ∧ n / 2^24 % 256 = d ∧ n < 2^32 := by
  omega

theorem wordAt_wordBytes (front : Bytes) (w : UInt32) (rest : Bytes) :
    wordAt (front ++ wordBytes w ++ rest) front.length = w := by
  have value := bytes_of_word w.toNat w.toNat_lt
  apply UInt32.toNat_inj.mp
  simp [wordAt,wordBytes,List.getD_eq_getElem?_getD]
  omega

theorem wordBytes_wordAt (front : Bytes) (a b c d : UInt8) (rest : Bytes) :
    wordBytes (wordAt (front ++ [a,b,c,d] ++ rest) front.length) = [a,b,c,d] := by
  obtain ⟨first,second,third,fourth,small⟩ := word_of_bytes a.toNat b.toNat c.toNat d.toNat
    a.toNat_lt b.toNat_lt c.toNat_lt d.toNat_lt _ rfl
  have value : (wordAt (front ++ [a,b,c,d] ++ rest) front.length).toNat =
      a.toNat + b.toNat*2^8 + c.toNat*2^16 + d.toNat*2^24 := by
    simp [wordAt,List.getD_eq_getElem?_getD] at small ⊢
    omega
  simp only [wordBytes,value,List.cons.injEq,and_true]
  refine ⟨?_,?_,?_,?_⟩ <;> apply UInt8.toNat_inj.mp <;> simp <;> omega

/-! Words of any width in little-endian order, and the eight-byte ones. -/

def littleEndian : Nat → Nat → Bytes
  | 0, _ => []
  | width+1, n => UInt8.ofNat n :: littleEndian width (n / 256)

def ofLittleEndian : Bytes → Nat
  | [] => 0
  | b::rest => b.toNat + 256 * ofLittleEndian rest

@[simp] theorem littleEndian_length (width n : Nat) : (littleEndian width n).length = width := by
  induction width generalizing n with
  | zero => rfl
  | succ width ih => simp [littleEndian,ih]

theorem ofLittleEndian_littleEndian (width n : Nat) :
    ofLittleEndian (littleEndian width n) = n % 256^width := by
  induction width generalizing n with
  | zero => simp [littleEndian,ofLittleEndian,Nat.mod_one]
  | succ width ih =>
    rw [littleEndian,ofLittleEndian,ih,Nat.pow_succ',Nat.mod_mul]
    simp

/-- A `uint64_t` on the wire and in the memory of a little-endian host. -/
def longBytes (w : UInt64) : Bytes := littleEndian 8 w.toNat

def longAt (memory : Bytes) (offset : Nat) : UInt64 := UInt64.ofNat (ofLittleEndian ((memory.drop offset).take 8))

@[simp] theorem longBytes_length (w : UInt64) : (longBytes w).length = 8 := littleEndian_length 8 _

theorem longAt_longBytes (front : Bytes) (w : UInt64) (rest : Bytes) :
    longAt (front ++ (longBytes w ++ rest)) front.length = w := by
  have word : (longBytes w ++ rest).take 8 = longBytes w := by
    rw [← longBytes_length w,List.take_left]
  have width : 256^8 = 2^64 := by decide
  rw [longAt,List.drop_left,word,longBytes,ofLittleEndian_littleEndian,width,Nat.mod_eq_of_lt w.toNat_lt]
  exact UInt64.ofNat_toNat

theorem longAt_drop (memory : Bytes) (front offset : Nat) :
    longAt (memory.drop front) offset = longAt memory (front+offset) := by
  rw [longAt,longAt,List.drop_drop]

def decimal : Int → Bytes
  | .ofNat n => (Nat.toDigits 10 n).map fun c => UInt8.ofNat c.toNat
  | .negSucc n => 45 :: (Nat.toDigits 10 (n+1)).map fun c => UInt8.ofNat c.toNat

def isDigit (b : UInt8) : Bool := 48 ≤ b && b ≤ 57

def isSpace (b : UInt8) : Bool := b == 32 || (9 ≤ b && b ≤ 13)

def toInt64 (x : Int) : Int := x.bmod (2^64)

theorem toInt64_eq {x : Int} (low : -2^63 ≤ x) (high : x < 2^63) : toInt64 x = x := by
  apply Int.bmod_eq_of_le
  · omega
  · omega

def longMax : Int := 2^63-1
def longMin : Int := -2^63

/-- `strtol` in base 10: the value, saturated at the ends of `long`, and the
string at `*endp`. -/
def strtol (s : Bytes) : Int × Bytes :=
  let t := s.dropWhile isSpace
  let (negative,u) := match t with
    | 45::u => (true,u)
    | 43::u => (false,u)
    | u => (false,u)
  let digits := u.takeWhile isDigit
  if digits = [] then (0,s)
  else
    let v : Int := digits.foldl (fun n d => 10*n + (d.toNat-48)) (0 : Nat)
    (if negative then max longMin (-v) else min longMax v,u.dropWhile isDigit)

/-- What `snprintf` leaves in a buffer of `size` bytes in front of its NUL, and
the length it returns. -/
def snprintf (size : Nat) (formatted : Bytes) : Bytes × Nat :=
  (formatted.take (size-1),formatted.length)

end CData
