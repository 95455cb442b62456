import TapProject.Lib.Cells
import TapProject.MacList.Table

set_option autoImplicit false

/-! # The table of `write_tap_v5.c` in memory

The same operations as in `MacList/Table.lean`, on the nodes that `malloc` hands out and the
pointers that link them. The heap is a finite map from addresses to nodes; a field of a node is
`none` until it is written. Every fault of an access or a loop (`Cells.Fault`) stops the run. -/

namespace TapProject.Pointers

open Chains Loops Cells

/-! ## Memory -/

/-- `struct mac_list`. -/
structure Node where
  macAdd : Option CStr
  tapName : Option CStr
  tapFdNum : Option Int
  macListNext : Option Ptr
  deriving DecidableEq, Repr

/-- The node at a new address: nothing is written to it yet. -/
def Node.uninit : Node := ⟨none, none, none, none⟩

/-- The state of the program. -/
structure Mem extends Store Node where
  listTop : Ptr
  cmdStr : CStr
  trace : List Event

def Mem.boot : Mem := ⟨.empty, none, [], []⟩

/-- How a run ends early: as the program does on the list, or by a fault of its memory. -/
inductive Stop
  | program (why : TapProject.Stop)
  | memory (why : Fault)
  deriving DecidableEq, Repr

structure Halt where
  why : Stop
  mem : Mem

/-- What `malloc(sizeof(struct mac_list))` returns. -/
abbrev Alloc := Cells.Alloc Node

section

variable (m : Mem)

def Mem.emit (es : List Event) : Mem := { m with trace := m.trace ++ es }

/-- The state as `tun_alloc` and `delete_tap` see it; neither looks at the table. -/
def Mem.sys : Sys := ⟨[], m.cmdStr, m.trace⟩

def Mem.withSys (s : Sys) : Mem := { m with cmdStr := s.cmdStr, trace := s.trace }

def Mem.fault (why : Fault) : Halt := ⟨.memory why, m⟩

/-- The memory with the node `n` at the address `a`. -/
def Mem.put (a : Addr) (n : Node) : Mem := { m with toStore := m.toStore.put a n }

/-- `p->f` -/
def Mem.read {α : Type} (p : Ptr) (f : Node → Option α) : Except Halt α :=
  m.toStore.read m.fault p f

/-- An assignment to a field of `*p`. -/
def Mem.write (p : Ptr) (set : Node → Node) : Except Halt Mem := do
  let store ← m.toStore.write m.fault p set
  .ok { m with toStore := store }

def Mem.malloc (alloc : Alloc) : Ptr × Mem :=
  let (p, store) := m.toStore.malloc alloc .uninit
  (p, { m with toStore := store })

def Mem.free (p : Ptr) : Except Halt Mem := do
  let store ← m.toStore.free m.fault p
  .ok { m with toStore := store }

/-- A `while` loop over the nodes. -/
def Mem.while {σ ρ : Type} (turn : σ → Except Halt (Turn σ ρ)) (s : σ) : Except Halt ρ :=
  m.toStore.whileLoop m.fault turn s

end

/-! ## The operations -/

def macListNext (m : Mem) : Ptr → Except Halt Ptr
  | none => .ok none
  | some a => m.read (some a) (·.macListNext)

def countTurn (m : Mem) : Ptr × Nat → Except Halt (Turn (Ptr × Nat) Nat)
  | (none, cnt) => .ok (.leave cnt)
  | (some a, cnt) => do
      let next ← m.read (some a) (·.macListNext)
      .ok (.again (next, cnt + 1))

def macListCount (m : Mem) : Except Halt Nat := m.while (countTurn m) (m.listTop, 0)

def printTurn : Ptr × Mem → Except Halt (Turn (Ptr × Mem) Mem)
  | (none, m) => .ok (.leave m)
  | (some a, m) => do
      let macAdd ← m.read (some a) (·.macAdd)
      let tapName ← m.read (some a) (·.tapName)
      let tapFdNum ← m.read (some a) (·.tapFdNum)
      let m := m.emit [.print (MacList.line ⟨macAdd, tapName, tapFdNum⟩)]
      let next ← m.read (some a) (·.macListNext)
      .ok (.again (next, m))

def macListPrint (m : Mem) : Except Halt Mem := do
  let m ← m.while printTurn (m.listTop, m)
  .ok (m.emit [.print "------------------------".toList])

def checkTurn (item : CStr) (m : Mem) : Ptr → Except Halt (Turn Ptr Ptr)
  | none => .ok (.leave none)
  | some a => do
      let macAdd ← m.read (some a) (·.macAdd)
      if macAdd = item then .ok (.leave (some a)) else
      let next ← macListNext m (some a)
      .ok (.again next)

def macListCheck (item : CStr) (m : Mem) : Except Halt Ptr :=
  if m.listTop = none then .ok m.listTop else m.while (checkTurn item m) m.listTop

/-- The loop of `mac_list_add`, which stops at the last node: its result is that node, or `none`
for the `return` in its body. -/
def scanTurn (item : CStr) (m : Mem) (p : Ptr) : Except Halt (Turn Ptr (Option Ptr)) := do
  let next ← m.read p (·.macListNext)
  if next = none then .ok (.leave (some p)) else
  let macAdd ← m.read p (·.macAdd)
  if macAdd = item then .ok (.leave none) else
  let next ← macListNext m p
  .ok (.again next)

/-- Where `mac_list_add` links the new node: `list_top` or `p_temp->mac_list_next`. -/
inductive Place
  | listTop
  | nextOf (p : Ptr)

def Mem.link (m : Mem) : Place → Except Halt Ptr
  | .listTop => .ok m.listTop
  | .nextOf p => m.read p (·.macListNext)

def Mem.setLink (m : Mem) (q : Ptr) : Place → Except Halt Mem
  | .listTop => .ok { m with listTop := q }
  | .nextOf p => m.write p ({ · with macListNext := some q })

/-- An assignment to a field of the node that `place` points to. -/
def Mem.assign (m : Mem) (place : Place) (set : Node → Node) : Except Halt Mem := do
  let p ← m.link place
  m.write p set

/-- The commands that create and put up the device of the next node, and its name. -/
def bringUp (m : Mem) : Except Halt (CStr × Mem) := do
  let m := m.emit [.system mktun]
  let cnt ← macListCount m
  let m := { m with cmdStr := linkUp cnt }
  let m := m.emit [.system m.cmdStr]
  let cnt ← macListCount m
  .ok (tapName cnt, m)

/-- The assignments to the fields of the new node, each through the place where it is linked. -/
def fillNode (host : Host) (item name : CStr) (place : Place) (m : Mem) : Except Halt Mem := do
  let m ← m.assign place ({ · with macAdd := some item })
  let m ← m.assign place ({ · with tapName := some name })
  let (fd, _, sys) := tunAlloc host name (flags ||| IFF_NO_PI) m.sys
  let m := m.withSys sys
  let m ← m.assign place ({ · with tapFdNum := some fd })
  if fd < 0 then .error ⟨.program (.exit 1), m.emit [.print "error:tun_alloc".toList]⟩ else
  m.assign place ({ · with macListNext := some none })

/-- The second half of `mac_list_add`, up to `mac_list_print`. -/
def addNode (host : Host) (alloc : Alloc) (item : CStr) (place : Place) (m : Mem) :
    Except Halt Mem := do
  let (name, m) ← bringUp m
  let (p, m) := m.malloc alloc
  -- the node is linked while all its fields, its own link among them, are still unwritten
  let m ← m.setLink p place
  fillNode host item name place m

def macListAdd (host : Host) (alloc : Alloc) (item : CStr) (m : Mem) : Except Halt Mem := do
  match m.listTop with
  | none => macListPrint (← addNode host alloc item .listTop m)
  | some top =>
      match ← m.while (scanTurn item m) (some top) with
      | none => .ok m
      | some p =>
          let macAdd ← m.read p (·.macAdd)
          if macAdd = item then .ok m else
          macListPrint (← addNode host alloc item (.nextOf p) m)

def initTurn (m : Mem) : Except Halt (Turn Mem Mem) :=
  match m.listTop with
  | none => .ok (.leave m)
  | some a => do
      let deletePos : Ptr := some a
      let next ← m.read m.listTop (·.macListNext)
      let m := { m with listTop := next }
      let m ← m.free deletePos
      .ok (.again m)

def macListInit (m : Mem) : Except Halt Mem := do
  let m ← m.while initTurn m
  .ok (m.withSys (deleteTap m.sys))

/-! ## Runs -/

inductive Call
  | add (item : CStr)
  | check (item : CStr)
  | count
  | init
  deriving DecidableEq, Repr

/-- What a call returns. -/
inductive Ret
  | void
  | ptr (p : Ptr)
  | int (n : Nat)
  deriving DecidableEq, Repr

def call (host : Host) (alloc : Alloc) : Call → Mem → Except Halt (Ret × Mem)
  | .add item, m => do .ok (.void, ← macListAdd host alloc item m)
  | .check item, m => do .ok (.ptr (← macListCheck item m), m)
  | .count, m => do .ok (.int (← macListCount m), m)
  | .init, m => do .ok (.void, ← macListInit m)

end TapProject.Pointers
