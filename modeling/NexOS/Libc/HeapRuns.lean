import NexOS.Lib.GuardedRuns
import NexOS.Libc.Allocation

/-! # Programs that use the heap

A program calls the allocator and writes into the blocks it got. Next to the heap stands
what the program may rely on: the blocks it holds and the bytes it left in each.
-/

namespace NexOS.Libc

open ByteMemory NexOS.Interval GuardedRuns

/-- A block that the program holds: its pointer, the size asked for, and the bytes of the
whole block as the program knows them. -/
structure Live where
  ptr : Nat
  size : Nat
  contents : List UInt8

namespace Live

/-- The bytes that belong to the program. -/
def bytes (l : Live) : Interval := ⟨l.ptr, l.ptr + l.contents.length⟩

/-- The bytes with their header. -/
def block (l : Live) : Interval := ⟨l.ptr - headerSize, l.ptr + l.contents.length⟩

end Live

/-- The program, its heap and the blocks it holds. It is `hung` when a call has not
returned. -/
structure State where
  heap : Heap
  live : List Live
  hung : Bool

/-- The calls of a program on the heap. -/
inductive Call where
  | malloc (answers : List Nat) (size : Nat)
  | calloc (answers : List Nat) (nmemb size : Nat)
  | realloc (answers : List Nat) (ptr size : Nat)
  | free (ptr : Nat)
  | write (ptr offset : Nat) (byte : UInt8)

def Call.answers : Call → List Nat
  | .malloc answers _ => answers
  | .calloc answers _ _ => answers
  | .realloc answers _ _ => answers
  | .free _ => []
  | .write _ _ _ => []

/-- A block as it was handed out. It has to begin with the expected bytes; what is behind
them is whatever the memory holds. -/
def record (heap : Heap) (ptr size : Nat) (expected : List UInt8) : Live :=
  let found := heap.mem.bytes ptr (headerAt heap.mem (blockOf ptr)).size
  ⟨ptr, size, expected.take found.length ++ found.drop expected.length⟩

namespace State

/-- The live blocks but one. -/
def without (s : State) (ptr : Nat) : List Live := s.live.eraseP fun l => l.ptr = ptr

/-- What the program wrote at a pointer. -/
def contentsAt (s : State) (ptr : Nat) : List UInt8 :=
  ((s.live.find? fun l => l.ptr = ptr).map Live.contents).getD []

/-- What the program has after an allocation. -/
def received (s : State) (result : Option (Heap × Nat)) (size : Nat)
    (expected : List UInt8) : State :=
  match result with
  | none => { s with hung := true }
  | some (heap, ptr) =>
    if ptr = 0 then { s with heap := heap }
    else { s with heap := heap, live := record heap ptr size expected :: s.live }

/-- A call on the heap; after a hang nothing happens. -/
def perform (s : State) (call : Call) : State :=
  if s.hung then s
  else
    match call with
    | .malloc answers size => s.received (Libc.malloc s.heap answers size) size []
    | .calloc answers nmemb size =>
      s.received (Libc.calloc s.heap answers nmemb size) (nmemb * size)
        (List.replicate (nmemb * size) 0)
    | .realloc answers ptr size =>
      match Libc.realloc s.heap answers ptr size with
      | none => { s with hung := true }
      | some (heap, new) =>
        if new = 0 then
          { s with heap := heap, live := if size = 0 then s.without ptr else s.live }
        else
          { s with
            heap := heap
            live := record heap new size (s.contentsAt ptr) :: s.without ptr }
    | .free ptr =>
      match Libc.free s.heap ptr with
      | none => { s with hung := true }
      | some heap => { s with heap := heap, live := s.without ptr }
    | .write ptr offset byte =>
      { s with
        heap := { s.heap with
          mem := Function.update s.heap.mem ((ptr + offset) % addressLimit) byte }
        live := s.live.map fun l =>
          if l.ptr = ptr then { l with contents := l.contents.set offset byte } else l }

/-- A heap without a page. -/
def start (mem : ByteMemory) : State := ⟨⟨mem, 0, []⟩, [], false⟩

/-- The program has the pointer. -/
def Holds (s : State) (ptr : Nat) : Prop := ∃ l ∈ s.live, l.ptr = ptr

/-- The program uses the heap as it may, and the kernel answers with fresh pages. -/
def Legal (s : State) : Call → Prop
  | .malloc answers size => size < addressLimit ∧ FreshPages s.heap.pages answers
  | .calloc answers nmemb size =>
    (nmemb < addressLimit ∧ size < addressLimit) ∧ FreshPages s.heap.pages answers
  | .realloc answers ptr size =>
    (size < addressLimit ∧ FreshPages s.heap.pages answers) ∧ (ptr = 0 ∨ s.Holds ptr)
  | .free ptr => ptr = 0 ∨ s.Holds ptr
  | .write ptr offset _ => ∃ l ∈ s.live, l.ptr = ptr ∧ offset < l.contents.length

/-- A legal call for which the kernel does not give the last page that has an address. -/
def Fits (s : State) (call : Call) : Prop := s.Legal call ∧ BelowLast call.answers

instance (s : State) (ptr : Nat) : Decidable (s.Holds ptr) :=
  inferInstanceAs (Decidable (∃ l ∈ s.live, l.ptr = ptr))

instance (s : State) : (call : Call) → Decidable (s.Legal call)
  | .malloc answers size =>
    inferInstanceAs (Decidable (size < addressLimit ∧ FreshPages s.heap.pages answers))
  | .calloc answers nmemb size =>
    inferInstanceAs (Decidable ((nmemb < addressLimit ∧ size < addressLimit) ∧
      FreshPages s.heap.pages answers))
  | .realloc answers ptr size =>
    inferInstanceAs (Decidable ((size < addressLimit ∧ FreshPages s.heap.pages answers) ∧
      (ptr = 0 ∨ s.Holds ptr)))
  | .free ptr => inferInstanceAs (Decidable (ptr = 0 ∨ s.Holds ptr))
  | .write ptr offset _ =>
    inferInstanceAs (Decidable (∃ l ∈ s.live, l.ptr = ptr ∧ offset < l.contents.length))

instance (s : State) (call : Call) : Decidable (s.Fits call) :=
  inferInstanceAs (Decidable (s.Legal call ∧ BelowLast call.answers))

end State

/-! ## What the program may rely on -/

/-- The free list, followed from a block on. -/
def collectFree (mem : ByteMemory) : Nat → Nat → Option (List Nat)
  | 0, _ => none
  | fuel + 1, cur =>
    if cur = 0 then some []
    else (collectFree mem fuel (headerAt mem cur).next).map fun rest => cur :: rest

/-- The blocks of the free list, if it ends. -/
def Heap.freeBlocks (heap : Heap) : Option (List Nat) :=
  collectFree heap.mem addressLimit heap.freeList

/-- The addresses from `first` to `last` are a run of pages that no other page continues. -/
structure IsPageRun (pages : List Nat) (first last : Nat) : Prop where
  nonempty : first < last
  owned : ∀ x, first ≤ x → x < last → Owned pages x
  ends : ¬Owned pages last
  begins : ∀ x, x + 1 = first → ¬Owned pages x

/-- The blocks of the program and the free blocks are what they have to be. -/
structure LawWith (s : State) (free : List Nat) : Prop where
  aligned : ∀ l ∈ s.live, mallocAlign ∣ l.ptr
  below : ∀ l ∈ s.live, l.ptr + l.contents.length ≤ addressLimit
  large : ∀ l ∈ s.live, l.size ≤ l.contents.length
  contents : ∀ l ∈ s.live, s.heap.mem.bytes l.ptr l.contents.length = l.contents
  apart : s.live.Pairwise fun l m => l.bytes.Apart m.bytes
  headers : ∀ l ∈ s.live, ∀ header ∈ free ++ s.live.map fun m => blockOf m.ptr,
    l.bytes.Apart (headerBytes header)
  sorted : free.Pairwise fun a b => a < b ∧ mallocBlockEnd s.heap.mem a < b
  freed : s.live = [] → (∀ b ∈ free, IsPageRun s.heap.pages b (mallocBlockEnd s.heap.mem b)) ∧
      ∀ page ∈ s.heap.pages, ∃ b ∈ free, b ≤ page ∧ page < mallocBlockEnd s.heap.mem b

/-- Every call has returned, and the heap is in order. -/
def State.Law (s : State) : Prop :=
  s.hung = false ∧ ∃ free, s.heap.freeBlocks = some free ∧ LawWith s free

end NexOS.Libc
