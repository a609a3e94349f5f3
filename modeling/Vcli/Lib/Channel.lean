import Mathlib.Data.List.Basic

/-! Channels between tasks: a bounded queue with one receiver, and a log that every subscriber
reads at its own pace and that forgets its oldest entries. -/

/-- A first-in first-out queue with room for `capacity` messages. -/
structure Channel (α : Type*) (capacity : Nat) where
  queued : List α
  bounded : queued.length ≤ capacity

namespace Channel

variable {α : Type*} {capacity : Nat} {c c' : Channel α capacity} {a : α}

def empty : Channel α capacity := ⟨[], Nat.zero_le capacity⟩

def send? (c : Channel α capacity) (a : α) : Option (Channel α capacity) :=
  if h : c.queued.length < capacity then
    some ⟨c.queued ++ [a], by rw [List.length_append]; exact h⟩
  else none

def recv? (c : Channel α capacity) : Option (α × Channel α capacity) :=
  match c with
  | ⟨[], _⟩ => none
  | ⟨a :: rest, h⟩ => some (a, ⟨rest, Nat.le_of_succ_le h⟩)

@[simp] theorem queued_empty : (empty : Channel α capacity).queued = [] := rfl

theorem queued_send? (h : c.send? a = some c') : c'.queued = c.queued ++ [a] := by
  unfold send? at h
  split_ifs at h
  exact congrArg queued (Option.some.inj h).symm

theorem recv?_eq_none_iff : c.recv? = none ↔ c.queued = [] := by
  obtain ⟨queued, hbound⟩ := c
  cases queued <;> simp [recv?]

theorem queued_recv? (h : c.recv? = some (a, c')) : c.queued = a :: c'.queued := by
  obtain ⟨queued, hbound⟩ := c
  cases queued with
  | nil => exact nomatch h
  | cons b rest =>
    obtain ⟨rfl, rfl⟩ := Prod.mk.inj (Option.some.inj h)
    rfl

theorem exists_recv? {rest : List α} (h : c.queued = a :: rest) :
    ∃ c', c.recv? = some (a, c') ∧ c'.queued = rest := by
  obtain ⟨queued, hbound⟩ := c
  obtain rfl : queued = a :: rest := h
  exact ⟨_, rfl, rfl⟩

end Channel

namespace Broadcast

/-- What a subscriber gets: an entry, the number of entries it has missed, or nothing yet. With
the first two comes its next position in the log. -/
inductive Recv (α : Type*)
  | entry (a : α) (next : Nat)
  | lagged (missed next : Nat)
  | empty

/-- `next` counts the entries of the whole log; the last `capacity` of them are still there. -/
def recv {α : Type*} (capacity : Nat) (log : List α) (next : Nat) : Recv α :=
  if next < log.length - capacity then
    .lagged (log.length - capacity - next) (log.length - capacity)
  else
    match log[next]? with
    | some a => .entry a (next + 1)
    | none => .empty

theorem mem_of_recv {α : Type*} {capacity next next' : Nat} {log : List α} {a : α}
    (h : recv capacity log next = .entry a next') : a ∈ log := by
  unfold recv at h
  split_ifs at h
  split at h
  · next b hb =>
    obtain ⟨rfl, -⟩ := Recv.entry.inj h
    exact List.mem_of_getElem? hb
  · exact nomatch h

inductive Item (α : Type*)
  | entry (a : α)
  | missed (n : Nat)

section Reading
variable {α : Type*} {log log' : List α} {capacity n m : Nat} {items : List (Item α)} {a : α}

/-- The items stand for the log from one position to another: each entry is the one at its place,
and each gap is as long as it is said to be. -/
inductive Covers (log : List α) : Nat → List (Item α) → Nat → Prop
  | nil (n : Nat) : Covers log n [] n
  | entry {n m : Nat} {a : α} {items : List (Item α)} (ha : log[n]? = some a)
      (rest : Covers log (n + 1) items m) : Covers log n (.entry a :: items) m
  | missed {n m k : Nat} {items : List (Item α)} (hk : n + k ≤ log.length)
      (rest : Covers log (n + k) items m) : Covers log n (.missed k :: items) m

namespace Covers

theorem mono (h : Covers log n items m) (hlog : log <+: log') : Covers log' n items m := by
  obtain ⟨more, rfl⟩ := hlog
  induction h with
  | nil n => exact .nil n
  | entry ha rest ih =>
    obtain ⟨hlt, -⟩ := List.getElem?_eq_some_iff.mp ha
    exact .entry ((List.getElem?_append_left hlt).trans ha) ih
  | missed hk rest ih =>
    refine .missed ?_ ih
    rw [List.length_append]
    omega

theorem snoc_entry (h : Covers log n items m) (ha : log[m]? = some a) :
    Covers log n (items ++ [.entry a]) (m + 1) := by
  induction h with
  | nil n => exact .entry ha (.nil _)
  | entry hb rest ih => exact .entry hb (ih ha)
  | missed hk rest ih => exact .missed hk (ih ha)

theorem snoc_missed (h : Covers log n items m) {k : Nat} (hk : m + k ≤ log.length) :
    Covers log n (items ++ [.missed k]) (m + k) := by
  induction h with
  | nil n => exact .missed hk (.nil _)
  | entry ha rest ih => exact .entry ha (ih hk)
  | missed hj rest ih => exact .missed hj (ih hk)

theorem le (h : Covers log n items m) : n ≤ m := by
  induction h with
  | nil n => exact Nat.le_refl n
  | entry ha rest ih => exact Nat.le_of_succ_le ih
  | missed hk rest ih => exact Nat.le_of_add_right_le ih

theorem le_length (h : Covers log n items m) (hn : n ≤ log.length) : m ≤ log.length := by
  induction h with
  | nil n => exact hn
  | entry ha rest ih =>
    obtain ⟨hlt, -⟩ := List.getElem?_eq_some_iff.mp ha
    exact ih hlt
  | missed hk rest ih => exact ih hk

theorem eq_entries (h : Covers log n items m) (hnone : ∀ k, .missed k ∉ items) :
    items = ((log.drop n).take (m - n)).map .entry := by
  induction h with
  | nil n => simp
  | @entry n m a items ha rest ih =>
    have hle : n + 1 ≤ m := rest.le
    obtain ⟨hlt, hget⟩ := List.getElem?_eq_some_iff.mp ha
    have hrest := ih fun k hk => hnone k (List.mem_cons_of_mem _ hk)
    obtain ⟨j, rfl⟩ : ∃ j, m = n + 1 + j := ⟨m - (n + 1), by omega⟩
    rw [List.drop_eq_getElem_cons hlt, show n + 1 + j - n = j + 1 by omega, List.take_succ_cons,
      List.map_cons, hget, hrest, show n + 1 + j - (n + 1) = j by omega]
  | @missed n m k items hk rest ih => exact absurd List.mem_cons_self (hnone k)

end Covers

theorem recv_entry {next : Nat} (h : recv capacity log n = .entry a next) :
    log[n]? = some a ∧ next = n + 1 := by
  unfold recv at h
  split_ifs at h
  split at h
  · next b hb =>
    obtain ⟨rfl, rfl⟩ := Recv.entry.inj h
    exact ⟨hb, rfl⟩
  · cases h

theorem recv_lagged {k next : Nat} (h : recv capacity log n = .lagged k next) :
    next = n + k ∧ n + k ≤ log.length ∧ capacity < log.length - n := by
  unfold recv at h
  split_ifs at h with hlt
  · obtain ⟨rfl, rfl⟩ := Recv.lagged.inj h
    omega
  · split at h <;> cases h

end Reading

end Broadcast
