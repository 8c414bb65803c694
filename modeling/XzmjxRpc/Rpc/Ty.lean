import Mathlib.Data.Finmap
import Mathlib.Data.Finset.Dedup
import XzmjxRpc.Utils.Codec

/-!
# XzmjxRpc.Rpc.Ty

The C++ types that `Serializer` handles and their values.

A type has two kinds of values here.  An *object* (`Ty.Obj`) is what `<<` is
given: a container in its iteration order, of a size below `2 ^ 64`, a set
without duplicates.  A *value* (`Ty.Val`) is what a decoded variable is
compared as: sets and maps forget the order.  `Ty.abs` is the value of an
object.

`operator<<` for `map` and `unordered_map` streams into the pointer `this` and
does not compile, so the types with a map in them have no objects to write.
-/

namespace XzmjxRpc

/-- A type that `Serializer` can be instantiated with. -/
inductive Ty where
  | bool
  | float
  | double
  | uint8
  | int8
  | uint16
  | int16
  | uint32
  | int32
  | uint64
  | int64
  | string
  | vector (t : Ty)
  | list (t : Ty)
  | set (t : Ty)
  | unorderedSet (t : Ty)
  | map (k v : Ty)
  | unorderedMap (k v : Ty)
  | tuple (ts : List Ty)

/-- What a type means: its objects, its values, and how `T v{}` starts. -/
structure Interp where
  Obj : Type
  Val : Type
  abs : Obj → Val
  init : Val
  /-- The variable may hold this before it is decoded into: scalars and
  strings are overwritten whatever they hold, containers must be empty. -/
  Fresh : Val → Prop
  init_fresh : Fresh init
  decEq : DecidableEq Val

namespace Interp

/-- A type whose objects are its values and that decoding assigns. -/
def scalar (α : Type) (a : α) [inst : DecidableEq α] : Interp where
  Obj := α
  Val := α
  abs := id
  init := a
  Fresh _ := True
  init_fresh := trivial
  decEq := inst

/-- `std::string`. -/
def string : Interp where
  Obj := { s : Bytes // s.length < 2 ^ 64 }
  Val := Bytes
  abs s := s.1
  init := []
  Fresh _ := True
  init_fresh := trivial
  decEq := inferInstance

/-- `std::vector<T>` and `std::list<T>`. -/
def seq (I : Interp) : Interp where
  Obj := { l : List I.Obj // l.length < 2 ^ 64 }
  Val := List I.Val
  abs l := l.1.map I.abs
  init := []
  Fresh l := l = []
  init_fresh := rfl
  decEq := letI := I.decEq; inferInstance

/-- `std::set<T>` and `std::unordered_set<T>`. -/
def set (I : Interp) : Interp where
  Obj := { l : List I.Obj // l.length < 2 ^ 64 ∧ (l.map I.abs).Nodup }
  Val := Finset I.Val
  abs l := letI := I.decEq; (l.1.map I.abs).toFinset
  init := ∅
  Fresh s := s = ∅
  init_fresh := rfl
  decEq := letI := I.decEq; inferInstance

/-- `std::map<K, V>` and `std::unordered_map<K, V>`. -/
def map (K V : Interp) : Interp where
  Obj := Empty
  Val := Finmap fun _ : K.Val => V.Val
  abs o := nomatch o
  init := ∅
  Fresh m := m = ∅
  init_fresh := rfl
  decEq := letI := K.decEq; letI := V.decEq; inferInstance

/-- `std::tuple<>`. -/
def unit : Interp := scalar Unit ()

/-- A tuple of one member more. -/
def prod (I J : Interp) : Interp where
  Obj := I.Obj × J.Obj
  Val := I.Val × J.Val
  abs o := (I.abs o.1, J.abs o.2)
  init := (I.init, J.init)
  Fresh v := I.Fresh v.1 ∧ J.Fresh v.2
  init_fresh := ⟨I.init_fresh, J.init_fresh⟩
  decEq := letI := I.decEq; letI := J.decEq; inferInstance

end Interp

mutual

/-- The meaning of a type. -/
def Ty.interp : Ty → Interp
  | .bool => .scalar Bool false
  | .float => .scalar (BitVec 32) 0
  | .double => .scalar (BitVec 64) 0
  | .uint8 => .scalar (BitVec 8) 0
  | .int8 => .scalar (BitVec 8) 0
  | .uint16 => .scalar (BitVec 16) 0
  | .int16 => .scalar (BitVec 16) 0
  | .uint32 => .scalar (BitVec 32) 0
  | .int32 => .scalar (BitVec 32) 0
  | .uint64 => .scalar (BitVec 64) 0
  | .int64 => .scalar (BitVec 64) 0
  | .string => .string
  | .vector t => .seq t.interp
  | .list t => .seq t.interp
  | .set t => .set t.interp
  | .unorderedSet t => .set t.interp
  | .map k v => .map k.interp v.interp
  | .unorderedMap k v => .map k.interp v.interp
  | .tuple ts => Ty.interps ts

/-- The meaning of a tuple of types. -/
def Ty.interps : List Ty → Interp
  | [] => .unit
  | t :: ts => .prod t.interp (Ty.interps ts)

end

namespace Ty

/-- The objects of type `t`, as `<<` reads them. -/
abbrev Obj (t : Ty) : Type := t.interp.Obj

/-- The values of type `t`. -/
abbrev Val (t : Ty) : Type := t.interp.Val

/-- The value of an object. -/
abbrev abs {t : Ty} (o : t.Obj) : t.Val := t.interp.abs o

/-- What `T v{}` holds. -/
abbrev init (t : Ty) : t.Val := t.interp.init

instance (t : Ty) : DecidableEq t.Val := t.interp.decEq

end Ty

end XzmjxRpc
