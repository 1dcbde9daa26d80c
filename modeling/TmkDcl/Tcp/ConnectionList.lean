import Mathlib.Data.List.Nodup
import Mathlib.Logic.Function.Basic
import TmkDcl.Lifetime
import TmkDcl.Tcp.Messenger

/-!
# The list of connections (tcp/src/connection.c)

`connection_add` makes a connection that the list owns, and `connection_delete` takes it from the
list, closes its descriptor and frees it. The memory and the descriptor of a connection are named by
the number of the call that made it.
-/

namespace TmkDcl.Tcp

open Lifetime

/-- The list of a server or of a client with the count, the structures and what their epoll set
has; the logs of the memory and of the descriptors, and the number of connections made. -/
structure Connections where
  connectionList : List ℕ
  connectionCnt : ℤ
  contents : ℕ → Connection
  names : ℕ → Bytes × Bytes
  epollSet : List ℕ
  memory : List (Act ℕ)
  descriptors : List (Act ℕ)
  created : ℕ

namespace Connections

/-- `list_init` and a count of 0. -/
def empty : Connections where
  connectionList := []
  connectionCnt := 0
  contents := fun _ => connectionAdd
  names := fun _ => ([], [])
  epollSet := []
  memory := []
  descriptors := []
  created := 0

/-- `connection_add` for a new descriptor (`connection.c:8-18`). -/
def add (s : Connections) : Connections :=
  { s with
    connectionList := s.connectionList ++ [s.created]
    connectionCnt := s.connectionCnt + 1
    contents := Function.update s.contents s.created connectionAdd
    memory := s.memory ++ [.acquire s.created]
    descriptors := s.descriptors ++ [.acquire s.created]
    created := s.created + 1 }

/-- Accesses to connections. -/
def access (l : List ℕ) (s : Connections) : Connections := { s with memory := s.memory ++ l.map .use }

/-- A system call on the descriptor of a connection, which is read from it. -/
def call (c : ℕ) (s : Connections) : Connections :=
  { s.access [c] with descriptors := s.descriptors ++ [c].map .use }

/-- `free(conn)`. -/
def free (c : ℕ) (s : Connections) : Connections := { s with memory := s.memory ++ [.release c] }

/-- `connection_delete` (`connection.c:20-27`); the descriptor that is closed leaves the epoll
set. -/
def delete (c : ℕ) (s : Connections) : Connections :=
  free c { s.access [c] with
    connectionList := s.connectionList.erase c
    connectionCnt := s.connectionCnt - 1
    epollSet := s.epollSet.filter (· ≠ c)
    descriptors := s.descriptors ++ [.release c] }

/-- The two `strncpy` of the functions that add a connection. -/
def name (c : ℕ) (host service : Bytes) (s : Connections) : Connections :=
  { s.access [c] with names := Function.update s.names c (host, service) }

/-- `epoll_ctl(.., EPOLL_CTL_ADD, ..)` and what follows it in `server_add_connection` and
`client_add_connection` (`messenger.c:42-50`, `messenger.c:105-114`). -/
def register (ok : Bool) (c : ℕ) (s : Connections) : Connections :=
  if ok then { s.call c with epollSet := c :: s.epollSet }
  else ((s.call c).delete c).free c

/-- `list_first_elem`; without a result where it is the head of the list. -/
def first (s : Connections) : Option ℕ := s.connectionList.head?

/-- `item->next` of a connection in the list. -/
def next (c : ℕ) (s : Connections) : Option ℕ := (s.connectionList.dropWhile (· ≠ c)).tail.head?

/-- The connections as the functions leave them, if every one is used properly: the list has those
that are held, with their descriptors. -/
structure Owned (s : Connections) : Prop where
  count : s.connectionCnt = s.connectionList.length
  nodup : s.connectionList.Nodup
  memory : Sound s.memory
  descriptors : Sound s.descriptors
  held : ∀ c, Held s.memory c ↔ c ∈ s.connectionList
  heldDescriptor : ∀ c, Held s.descriptors c ↔ c ∈ s.connectionList
  made : ∀ c, .acquire c ∈ s.memory ↔ c < s.created
  madeDescriptor : ∀ c, .acquire c ∈ s.descriptors ↔ c < s.created
  registered : ∀ c ∈ s.epollSet, c ∈ s.connectionList

section Owned

variable {s : Connections} {c d : ℕ} {l : List ℕ} {host service : Bytes}

theorem owned_empty : Owned empty where
  count := rfl
  nodup := List.nodup_nil
  memory := .nil
  descriptors := .nil
  held := by simp [Held, empty]
  heldDescriptor := by simp [Held, empty]
  made := by simp [empty]
  madeDescriptor := by simp [empty]
  registered := by simp [empty]

theorem Owned.lt_created (h : s.Owned) (hc : c ∈ s.connectionList) : c < s.created :=
  (h.made c).mp ((h.held c).mpr hc).1

theorem Owned.add (h : s.Owned) : s.add.Owned := by
  have hmemory : .acquire s.created ∉ s.memory := by
    rw [h.made]
    exact lt_irrefl _
  have hdescriptors : .acquire s.created ∉ s.descriptors := by
    rw [h.madeDescriptor]
    exact lt_irrefl _
  constructor
  · simp [Connections.add, h.count]
  · apply List.nodup_append.mpr
    refine ⟨h.nodup, List.nodup_singleton _, ?_⟩
    intro a ha b hb
    rw [List.mem_singleton.mp hb]
    exact (h.lt_created ha).ne
  · exact h.memory.acquire hmemory
  · exact h.descriptors.acquire hdescriptors
  · intro c
    rw [Connections.add, h.memory.held_acquire hmemory, h.held]
    simp
  · intro c
    rw [Connections.add, h.descriptors.held_acquire hdescriptors, h.heldDescriptor]
    simp
  · intro c
    simp only [Connections.add, List.mem_append, List.mem_singleton, Act.acquire.injEq, h.made]
    omega
  · intro c
    simp only [Connections.add, List.mem_append, List.mem_singleton, Act.acquire.injEq,
      h.madeDescriptor]
    omega
  · intro c hc
    exact List.mem_append_left _ (h.registered c hc)

theorem Owned.access (h : s.Owned) (hl : ∀ c ∈ l, c ∈ s.connectionList) : (s.access l).Owned where
  count := h.count
  nodup := h.nodup
  memory := h.memory.uses l fun c hc => (h.held c).mpr (hl c hc)
  descriptors := h.descriptors
  held c := (held_uses l).trans (h.held c)
  heldDescriptor := h.heldDescriptor
  made c := by simp [Connections.access, h.made]
  madeDescriptor := h.madeDescriptor
  registered := h.registered

theorem Owned.name (h : s.Owned) (hc : c ∈ s.connectionList) : (s.name c host service).Owned := by
  have haccess : (s.access [c]).Owned := h.access (by simpa using hc)
  exact ⟨haccess.count, haccess.nodup, haccess.memory, haccess.descriptors, haccess.held,
    haccess.heldDescriptor, haccess.made, haccess.madeDescriptor, haccess.registered⟩

theorem Owned.call (h : s.Owned) (hc : c ∈ s.connectionList) : (s.call c).Owned := by
  have haccess : (s.access [c]).Owned := h.access (by simpa using hc)
  have hheld : ∀ d ∈ [c], Held s.descriptors d := by simpa using (h.heldDescriptor c).mpr hc
  refine ⟨haccess.count, haccess.nodup, haccess.memory, h.descriptors.uses [c] hheld, haccess.held,
    ?_, haccess.made, ?_, haccess.registered⟩
  · intro d
    exact (held_uses [c]).trans (h.heldDescriptor d)
  · intro d
    show .acquire d ∈ s.descriptors ++ [c].map .use ↔ d < s.created
    simp [h.madeDescriptor]

theorem Owned.delete (h : s.Owned) (hc : c ∈ s.connectionList) : (s.delete c).Owned := by
  have haccess : (s.access [c]).Owned := h.access (by simpa using hc)
  have hmem : ∀ d, d ∈ s.connectionList.erase c ↔ d ∈ s.connectionList ∧ d ≠ c := by
    intro d
    rw [h.nodup.mem_erase_iff, and_comm]
  constructor
  · have hlen := List.length_erase_of_mem hc
    have hpos := List.length_pos_of_mem hc
    show s.connectionCnt - 1 = ((s.connectionList.erase c).length : ℤ)
    rw [h.count, hlen]
    omega
  · exact h.nodup.erase c
  · exact haccess.memory.release ((haccess.held c).mpr hc)
  · exact h.descriptors.release ((h.heldDescriptor c).mpr hc)
  · intro d
    show Held ((s.access [c]).memory ++ [.release c]) d ↔ d ∈ s.connectionList.erase c
    rw [held_release, haccess.held, hmem]
    rfl
  · intro d
    show Held (s.descriptors ++ [.release c]) d ↔ d ∈ s.connectionList.erase c
    rw [held_release, h.heldDescriptor, hmem]
  · intro d
    show .acquire d ∈ (s.access [c]).memory ++ [.release c] ↔ d < s.created
    rw [List.mem_append, haccess.made]
    simp [Connections.access]
  · intro d
    show .acquire d ∈ s.descriptors ++ [.release c] ↔ d < s.created
    simp [h.madeDescriptor]
  · intro d hd
    obtain ⟨hd, hne⟩ := List.mem_filter.mp hd
    exact (hmem d).mpr ⟨h.registered d hd, by simpa using hne⟩

theorem Owned.register (h : s.Owned) (hc : c ∈ s.connectionList) : (s.register true c).Owned := by
  have hcall := h.call hc
  refine ⟨hcall.count, hcall.nodup, hcall.memory, hcall.descriptors, hcall.held,
    hcall.heldDescriptor, hcall.made, hcall.madeDescriptor, ?_⟩
  intro d hd
  cases List.mem_cons.mp hd with
  | inl heq => exact heq ▸ hc
  | inr hold => exact h.registered d hold

end Owned

end Connections

end TmkDcl.Tcp
