import Mathlib.Tactic.Common
import Mathlib.Algebra.Order.Ring.Int

/-!
# Bytes, errors and the topic catalog

The small shared types of `broker-core`: byte strings, the errors of the log and the catalog
(`error.rs`), the `(topic, partition)` pairs that key every map, and `TopicCatalog` (`topic.rs`).

* `Vec<u8>` is `Bytes`, a list of bytes, ordered lexicographically as in Rust.
* `BTreeMap` is `Std.ExtTreeMap` and `BTreeSet` is `Std.ExtTreeSet`: ordered maps up to their
  contents, iterated in key order.
* `i32` and `i64` values that are only compared, stored and passed on are integers.
* A `TopicCatalog` carries what `create` checks, so that every catalog is a valid one.
-/

namespace CharlotteBroker.Core

open Std

/-- A byte string (`Vec<u8>`, `&[u8]`). -/
abbrev Bytes := List UInt8

/-- A rejected log or catalog operation.
Source: `error.rs`, `LogError`. Kind: D -/
inductive LogError
  | unknownTopic
  | unknownPartition
  | invalidTopic
  | duplicateTopic
  | emptyAppend
  | tooManyRecords
  | offsetOutOfRange
  deriving DecidableEq, Repr

/-- The key of a partition log: the pair `(Vec<u8>, i32)` of the source, in its order. -/
structure TopicPartition where
  topic : Bytes
  partition : Int
  deriving DecidableEq, Repr

instance : Ord TopicPartition where
  compare := compareLex (compareOn TopicPartition.topic) (compareOn TopicPartition.partition)

instance : TransOrd TopicPartition :=
  inferInstanceAs (TransCmp (compareLex (compareOn TopicPartition.topic)
    (compareOn TopicPartition.partition)))

instance : LawfulEqOrd TopicPartition where
  eq_of_compare {a b} h := by
    have h' : compareLex (compareOn TopicPartition.topic)
      (compareOn TopicPartition.partition) a b = .eq := h
    rw [compareLex_eq_eq] at h'
    obtain ⟨ht, hp⟩ := h'
    obtain ⟨t, p⟩ := a
    obtain ⟨t', p'⟩ := b
    simp only [compareOn, Std.compare_eq_iff_eq] at ht hp
    rw [ht, hp]

/-! ## The topic catalog -/

/-- Topic description reported by metadata.
Source: `topic.rs`, `TopicMetadata`. Kind: D -/
structure TopicMetadata where
  name : Bytes
  partitions : Int
  deriving DecidableEq, Repr

/-- What `create` lets into the catalog: named topics with a positive `i32` partition count. -/
def ValidTopics (topics : ExtTreeMap Bytes Int) : Prop :=
  ∀ (name : Bytes) (count : Int), topics[name]? = some count → name ≠ [] ∧ 0 < count ∧ count < 2 ^ 31

/-- Topic name to partition-count map.
Source: `topic.rs`, `TopicCatalog`. Kind: D -/
structure TopicCatalog where
  topics : ExtTreeMap Bytes Int
  valid : ValidTopics topics

theorem validTopics_empty : ValidTopics ∅ := by
  intro name count h
  simp at h

/-- A topic that passes the test of `create` may be added. -/
theorem ValidTopics.insert {topics : ExtTreeMap Bytes Int} (h : ValidTopics topics) {name : Bytes}
    {partitions : Int32} (hnew : ¬ (name.isEmpty || partitions ≤ 0) = true) :
    ValidTopics (topics.insert name partitions.toInt) := by
  intro name' count hget
  rw [ExtTreeMap.getElem?_insert] at hget
  by_cases heq : compare name name' = .eq
  · rw [if_pos heq, Option.some.injEq] at hget
    rw [Std.compare_eq_iff_eq] at heq
    subst heq hget
    rw [Bool.or_eq_true, not_or, List.isEmpty_iff, decide_eq_true_eq, Int32.le_iff_toInt_le] at hnew
    have hlt := Int32.toInt_lt partitions
    exact ⟨hnew.1, Int.not_le.mp hnew.2, hlt⟩
  · rw [if_neg heq] at hget
    exact h name' count hget

namespace TopicCatalog

/-- Source: `topic.rs`, `TopicCatalog::new`. Kind: D -/
def new : TopicCatalog := ⟨∅, validTopics_empty⟩

/-- Partition count for a topic, if present.
Source: `topic.rs`, `partition_count`. Kind: D -/
def partitionCount (catalog : TopicCatalog) (name : Bytes) : Option Int := catalog.topics[name]?

/-- Adds a topic; an empty name, a non-positive count and a known name are refused.
Source: `topic.rs`, `create`. Kind: D -/
def create (catalog : TopicCatalog) (name : Bytes) (partitions : Int32) :
    TopicCatalog × Except LogError Unit :=
  if h : (name.isEmpty || partitions ≤ 0) = true then (catalog, .error .invalidTopic)
  else if catalog.topics.contains name then (catalog, .error .duplicateTopic)
  else (⟨catalog.topics.insert name partitions.toInt, catalog.valid.insert h⟩, .ok ())

/-- Validates a topic and partition index against the catalog.
Source: `topic.rs`, `check_partition`. Kind: D -/
def checkPartition (catalog : TopicCatalog) (topic : Bytes) (partition : Int) :
    Except LogError Unit :=
  match catalog.partitionCount topic with
  | none => .error .unknownTopic
  | some count =>
      if partition < 0 || partition ≥ count then .error .unknownPartition else .ok ()

/-- Metadata for every topic, ordered by name.
Source: `topic.rs`, `metadata`. Kind: D -/
def metadata (catalog : TopicCatalog) : List TopicMetadata :=
  catalog.topics.toList.map fun entry => ⟨entry.1, entry.2⟩

/-- A partition the catalog knows has a named topic and an index in range. -/
theorem checkPartition_eq_ok {catalog : TopicCatalog} {topic : Bytes} {partition : Int} :
    catalog.checkPartition topic partition = .ok () ↔
      ∃ count, catalog.partitionCount topic = some count ∧ 0 ≤ partition ∧ partition < count := by
  unfold checkPartition
  rcases h : catalog.partitionCount topic with _ | count
  · simp
  · by_cases hrange : partition < 0 ∨ partition ≥ count
    · simp only [hrange, Bool.or_eq_true, decide_eq_true_eq, if_true, reduceCtorEq, false_iff]
      rintro ⟨count', hcount, h0, hlt⟩
      cases hcount
      omega
    · simp only [hrange, Bool.or_eq_true, decide_eq_true_eq, if_false, true_iff]
      exact ⟨count, rfl, by omega, by omega⟩

theorem topic_ne_nil {catalog : TopicCatalog} {topic : Bytes} {partition : Int}
    (h : catalog.checkPartition topic partition = .ok ()) : topic ≠ [] := by
  obtain ⟨count, hcount, -, -⟩ := checkPartition_eq_ok.mp h
  exact (catalog.valid topic count hcount).1

theorem partition_nonneg {catalog : TopicCatalog} {topic : Bytes} {partition : Int}
    (h : catalog.checkPartition topic partition = .ok ()) : 0 ≤ partition := by
  obtain ⟨count, -, h0, -⟩ := checkPartition_eq_ok.mp h
  exact h0

end TopicCatalog

end CharlotteBroker.Core
