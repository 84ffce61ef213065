import CharlotteBroker.Core.Generations
import CharlotteBroker.Lib.Dealing
import CharlotteBroker.Runtime.Calls

/-!
# The assignment of a join

A successful join answers with an assignment of the catalog's partitions to the members of the group
(`FairAssignment`): every partition of a subscribed topic goes to one subscriber, and subscribers of
a topic get the same number of its partitions, up to one.

* The loop of `join` deals the partitions out (`assignPartitions_eq`): the partition at position
  `i` of the catalog goes to the subscriber at `i` modulo their number (`turn`).
* The partitions of a topic stand together in the catalog (`catalogPartitions_split`), so that the
  turns of its subscribers run over consecutive positions (`share_hand`).
* `joinGroup_fair`: the answer of `Broker::join_group`, from any broker state.
-/

namespace CharlotteBroker.Runtime

open Std CharlotteBroker.Core Lib

/-- The member of the group subscribes to the topic. -/
def Subscribes (members : ExtTreeMap Bytes GroupMember) (memberId topic : Bytes) : Prop :=
  ∃ member, members[memberId]? = some member ∧ topic ∈ member.subscriptions

/-- How many partitions of the topic are in the list. -/
def share (topic : Bytes) (partitions : List TopicPartition) : ℕ :=
  partitions.countP fun key => key.topic = topic

/-- What an assignment owes the members of a group: one entry for each, every partition of a
subscribed topic once and with a subscriber, nothing else, and equal shares up to one. -/
structure FairAssignment (catalog : TopicCatalog) (members : ExtTreeMap Bytes GroupMember)
    (assignments : List GroupAssignment) : Prop where
  entries : assignments.map GroupAssignment.memberId = members.keys
  once : ∀ topic partition, catalog.checkPartition topic partition = .ok () →
    (∃ memberId, Subscribes members memberId topic) →
      (assignments.flatMap GroupAssignment.partitions).count ⟨topic, partition⟩ = 1
  subscribed : ∀ assignment ∈ assignments, ∀ key ∈ assignment.partitions,
    catalog.checkPartition key.topic key.partition = .ok () ∧
      Subscribes members assignment.memberId key.topic
  balanced : ∀ topic, ∀ assignment ∈ assignments, ∀ other ∈ assignments,
    Subscribes members assignment.memberId topic → Subscribes members other.memberId topic →
      share topic assignment.partitions ≤ share topic other.partitions + 1

/-! ## The partitions of the catalog -/

section Catalog

variable {catalog : TopicCatalog}

theorem mem_metadata {topic : TopicMetadata} :
    topic ∈ catalog.metadata ↔ catalog.partitionCount topic.name = some topic.partitions := by
  unfold TopicCatalog.metadata TopicCatalog.partitionCount
  rw [← ExtTreeMap.mem_toList_iff_getElem?_eq_some, List.mem_map]
  constructor
  · rintro ⟨entry, hentry, rfl⟩
    exact hentry
  · exact fun hentry => ⟨_, hentry, rfl⟩

/-- A topic stands in the catalog once. -/
theorem pairwise_metadata (catalog : TopicCatalog) :
    catalog.metadata.Pairwise fun topic other => topic.name ≠ other.name := by
  unfold TopicCatalog.metadata
  refine List.pairwise_map.mpr (ExtTreeMap.distinct_keys_toList.imp fun {entry other} hne heq => ?_)
  exact hne (Std.compare_eq_iff_eq.mpr heq)

/-- The partitions of one topic. -/
def topicPartitions (topic : TopicMetadata) : List TopicPartition :=
  (List.range topic.partitions.toNat).map fun partition : ℕ => ⟨topic.name, (partition : Int)⟩

theorem topic_of_mem {topic : TopicMetadata} {key : TopicPartition}
    (h : key ∈ topicPartitions topic) : key.topic = topic.name := by
  obtain ⟨_, -, rfl⟩ := List.mem_map.mp h
  rfl

theorem mem_catalogPartitions {key : TopicPartition} :
    key ∈ catalogPartitions catalog ↔
      catalog.checkPartition key.topic key.partition = .ok () := by
  unfold catalogPartitions
  rw [TopicCatalog.checkPartition_eq_ok, List.mem_flatMap]
  constructor
  · rintro ⟨topic, htopic, hkey⟩
    obtain ⟨partition, hpartition, rfl⟩ := List.mem_map.mp hkey
    rw [List.mem_range] at hpartition
    exact ⟨topic.partitions, mem_metadata.mp htopic, Int.natCast_nonneg partition,
      Int.lt_toNat.mp hpartition⟩
  · rintro ⟨count, hcount, hmin, hmax⟩
    have hlt : key.partition.toNat < count.toNat := by omega
    refine ⟨⟨key.topic, count⟩, mem_metadata.mpr hcount, List.mem_map.mpr
      ⟨key.partition.toNat, List.mem_range.mpr hlt, ?_⟩⟩
    rw [Int.toNat_of_nonneg hmin]

theorem nodup_catalogPartitions (catalog : TopicCatalog) : (catalogPartitions catalog).Nodup := by
  refine List.nodup_flatMap.mpr ⟨fun topic _ => ?_, ?_⟩
  · refine List.Nodup.map (fun i j heq => ?_) List.nodup_range
    exact Int.ofNat.inj (TopicPartition.mk.inj heq).2
  · refine (pairwise_metadata catalog).imp fun {topic other} hne key hkey hkey' => hne ?_
    exact (topic_of_mem hkey).symm.trans (topic_of_mem hkey')

/-- The partitions of a topic stand together. -/
theorem catalogPartitions_split {topic : TopicMetadata} (h : topic ∈ catalog.metadata) :
    ∃ before after, catalogPartitions catalog = before ++ (topicPartitions topic ++ after) ∧
      (∀ key ∈ before, key.topic ≠ topic.name) ∧ ∀ key ∈ after, key.topic ≠ topic.name := by
  obtain ⟨first, last, hsplit⟩ := List.append_of_mem h
  have hpairwise := pairwise_metadata catalog
  rw [hsplit, List.pairwise_append, List.pairwise_cons] at hpairwise
  obtain ⟨-, ⟨hlast, -⟩, hfirst⟩ := hpairwise
  refine ⟨first.flatMap topicPartitions, last.flatMap topicPartitions, ?_, ?_, ?_⟩
  · show catalog.metadata.flatMap topicPartitions = _
    rw [hsplit, List.flatMap_append, List.flatMap_cons]
  · intro key hkey
    obtain ⟨other, hother, hmem⟩ := List.mem_flatMap.mp hkey
    rw [topic_of_mem hmem]
    exact hfirst other hother topic List.mem_cons_self
  · intro key hkey
    obtain ⟨other, hother, hmem⟩ := List.mem_flatMap.mp hkey
    rw [topic_of_mem hmem]
    exact (hlast other hother).symm

end Catalog

/-! ## Eligible members -/

theorem eligible_eq (members : List GroupMember) (topic : Bytes) :
    eligible members topic =
      (members.zipIdx.filter fun entry => entry.1.subscriptions.any (· == topic)).map
        Prod.snd := by
  unfold eligible
  rw [← List.filterMap_eq_map, List.filterMap_filter]
  refine List.filterMap_congr fun entry _ => ?_
  rfl

theorem mem_eligible {members : List GroupMember} {topic : Bytes} {j : ℕ} :
    j ∈ eligible members topic ↔
      ∃ member, members[j]? = some member ∧ topic ∈ member.subscriptions := by
  rw [eligible_eq]
  simp only [List.mem_map, List.mem_filter, List.mem_zipIdx_iff_getElem?, List.any_beq',
    List.contains_iff_mem, Prod.exists]
  constructor
  · rintro ⟨member, _, ⟨hget, hmem⟩, rfl⟩
    exact ⟨member, hget, hmem⟩
  · rintro ⟨member, hget, hmem⟩
    exact ⟨member, j, ⟨hget, hmem⟩, rfl⟩

theorem nodup_eligible (members : List GroupMember) (topic : Bytes) :
    (eligible members topic).Nodup := by
  rw [eligible_eq]
  refine List.Nodup.sublist (List.filter_sublist.map Prod.snd) ?_
  rw [List.zipIdx_map_snd]
  exact List.nodup_range'

section Members

variable {members : ExtTreeMap Bytes GroupMember}

theorem length_values (members : ExtTreeMap Bytes GroupMember) :
    members.values.length = members.keys.length := by
  rw [values_eq_map_snd_toList, ← ExtTreeMap.map_fst_toList_eq_keys, List.length_map,
    List.length_map]

/-- The eligible members are the subscribers, by their position. -/
theorem subscribes_iff {j : ℕ} {memberId : Bytes} (hkey : members.keys[j]? = some memberId)
    (topic : Bytes) : Subscribes members memberId topic ↔ j ∈ eligible members.values topic := by
  have hlt : j < members.values.length := by
    rw [length_values]
    exact (List.getElem?_eq_some_iff.mp hkey).1
  have hvalue := List.getElem?_eq_getElem hlt
  have hget := getElem?_of_keys_values hkey hvalue
  rw [mem_eligible, hvalue, Subscribes, hget]

/-- A subscriber has a position. -/
theorem Subscribes.exists_key {memberId topic : Bytes} (h : Subscribes members memberId topic) :
    ∃ j : ℕ, members.keys[j]? = some memberId := by
  obtain ⟨member, hget, -⟩ := h
  refine List.mem_iff_getElem?.mp (ExtTreeMap.mem_keys.mpr ?_)
  rw [ExtTreeMap.mem_iff_isSome_getElem?, hget]
  rfl

end Members

/-! ## The loop -/

/-- Whose turn it is at a position of the catalog. -/
def turn (members : List GroupMember) (entry : TopicPartition × ℕ) : Option ℕ :=
  seatAt (eligible members entry.1.topic) entry.2

theorem foldl_push (entries : List (TopicPartition × ℕ)) (assignment : GroupAssignment) :
    entries.foldl
        (fun assignment entry =>
          { assignment with partitions := assignment.partitions ++ [entry.1] }) assignment =
      ⟨assignment.memberId, assignment.partitions ++ entries.map Prod.fst⟩ := by
  induction entries generalizing assignment with
  | nil => simp
  | cons entry entries ih => simp [ih]

/-- **The loop deals the partitions out.** -/
theorem assignPartitions_eq (members : List GroupMember) (partitions : List TopicPartition)
    (memberIds : List Bytes) :
    assignPartitions members partitions (memberIds.map fun memberId => ⟨memberId, []⟩) =
      memberIds.zipIdx.map fun entry => ⟨entry.1, hand (turn members) partitions entry.2⟩ := by
  have hdeal : assignPartitions members partitions
      (memberIds.map fun memberId => ⟨memberId, []⟩) =
      deal (turn members)
        (fun assignment entry =>
          { assignment with partitions := assignment.partitions ++ [entry.1] })
        partitions.zipIdx (memberIds.map fun memberId => ⟨memberId, []⟩) := rfl
  refine List.ext_getElem? fun j => ?_
  rw [hdeal, getElem?_deal, List.getElem?_map, List.getElem?_map, List.getElem?_zipIdx]
  simp only [foldl_push, Option.map_map, Nat.zero_add]
  rfl

/-- The share of a topic a hand holds is the turns its seat has in a run of positions, the same for
all hands. -/
theorem share_hand (catalog : TopicCatalog) (members : List GroupMember) (topic : Bytes) :
    ∃ start count, ∀ j, share topic (hand (turn members) (catalogPartitions catalog) j) =
      (List.range' start count).countP fun i =>
        seatAt (eligible members topic) i = some j := by
  rcases hcount : catalog.partitionCount topic with _ | count
  · -- no partition of the catalog is of this topic
    refine ⟨0, 0, fun j => List.countP_eq_zero.mpr fun key hkey => ?_⟩
    have hmem := mem_catalogPartitions.mp ((hand_sublist _ _ j).subset hkey)
    obtain ⟨count, hcount', -⟩ := TopicCatalog.checkPartition_eq_ok.mp hmem
    rw [decide_eq_true_eq]
    rintro rfl
    rw [hcount] at hcount'
    cases hcount'
  · obtain ⟨before, after, hsplit, hbefore, hafter⟩ :=
      catalogPartitions_split (mem_metadata.mpr hcount : ⟨topic, count⟩ ∈ catalog.metadata)
    refine ⟨before.length, (topicPartitions ⟨topic, count⟩).length, fun j => ?_⟩
    -- outside the run no partition is of this topic
    have hnone : ∀ (keys : List TopicPartition) (start : ℕ), (∀ key ∈ keys, key.topic ≠ topic) →
        (keys.zipIdx start).countP (fun entry =>
          decide (entry.1.topic = topic) && decide (turn members entry = some j)) = 0 := by
      intro keys start hkeys
      refine List.countP_eq_zero.mpr fun entry hentry => ?_
      simp [hkeys entry.1 (List.fst_mem_of_mem_zipIdx hentry)]
    unfold share hand
    rw [List.countP_map, List.countP_filter, hsplit, List.zipIdx_append, List.zipIdx_append,
      List.countP_append, List.countP_append]
    simp only [Function.comp_apply]
    rw [hnone before _ hbefore, hnone after _ hafter, Nat.zero_add, Nat.add_zero, Nat.zero_add,
      ← List.zipIdx_map_snd, List.countP_map]
    refine List.countP_congr fun entry hentry => ?_
    have htopic : entry.1.topic = topic := topic_of_mem (List.fst_mem_of_mem_zipIdx hentry)
    simp [turn, htopic]

/-! ## Fairness -/

section Fair

variable {catalog : TopicCatalog} {members : ExtTreeMap Bytes GroupMember}

/-- The assignment of the catalog's partitions to the members. -/
def dealt (catalog : TopicCatalog) (members : ExtTreeMap Bytes GroupMember) :
    List GroupAssignment :=
  members.keys.zipIdx.map fun entry =>
    ⟨entry.1, hand (turn members.values) (catalogPartitions catalog) entry.2⟩

theorem mem_dealt {assignment : GroupAssignment} :
    assignment ∈ dealt catalog members ↔
      ∃ j : ℕ, members.keys[j]? = some assignment.memberId ∧
        assignment.partitions = hand (turn members.values) (catalogPartitions catalog) j := by
  unfold dealt
  simp only [List.mem_map, List.mem_zipIdx_iff_getElem?, Prod.exists]
  constructor
  · rintro ⟨memberId, j, hkey, rfl⟩
    exact ⟨j, hkey, rfl⟩
  · rintro ⟨j, hkey, hpartitions⟩
    exact ⟨assignment.memberId, j, hkey, by rw [← hpartitions]⟩

/-- All that is dealt out, seat by seat. -/
theorem flatMap_dealt :
    (dealt catalog members).flatMap GroupAssignment.partitions =
      (List.range' 0 members.keys.length).flatMap
        (hand (turn members.values) (catalogPartitions catalog)) := by
  rw [dealt, List.flatMap_map, ← List.zipIdx_map_snd, List.flatMap_map]

/-- **Dealing the catalog out is fair.** -/
theorem fairAssignment_dealt (catalog : TopicCatalog) (members : ExtTreeMap Bytes GroupMember) :
    FairAssignment catalog members (dealt catalog members) where
  entries := by
    rw [dealt, List.map_map]
    exact List.zipIdx_map_fst 0 members.keys
  once := by
    intro topic partition hcheck ⟨memberId, hsubscribes⟩
    obtain ⟨seat, hseat⟩ := Subscribes.exists_key hsubscribes
    have heligible := (subscribes_iff hseat topic).mp hsubscribes
    have hmem : (⟨topic, partition⟩ : TopicPartition) ∈ catalogPartitions catalog :=
      mem_catalogPartitions.mpr hcheck
    obtain ⟨i, hi⟩ := List.mem_iff_getElem?.mp hmem
    obtain ⟨j, hj⟩ := exists_seatAt (List.ne_nil_of_mem heligible) i
    have hhand : (⟨topic, partition⟩ : TopicPartition) ∈
        hand (turn members.values) (catalogPartitions catalog) j :=
      mem_hand.mpr ⟨i, hi, hj⟩
    -- the seat is one of a member
    obtain ⟨member, hmember, -⟩ := mem_eligible.mp (mem_of_seatAt hj)
    have hlt : j < members.keys.length := by
      rw [← length_values]
      exact (List.getElem?_eq_some_iff.mp hmember).1
    rw [flatMap_dealt]
    refine List.count_eq_one_of_mem
      (nodup_flatMap_hand (nodup_catalogPartitions catalog) List.nodup_range') ?_
    exact List.mem_flatMap.mpr ⟨j, by simpa using hlt, hhand⟩
  subscribed := by
    intro assignment hassignment key hkey
    obtain ⟨j, hmember, hpartitions⟩ := mem_dealt.mp hassignment
    rw [hpartitions] at hkey
    obtain ⟨i, -, hturn⟩ := mem_hand.mp hkey
    exact ⟨mem_catalogPartitions.mp ((hand_sublist _ _ j).subset hkey),
      (subscribes_iff hmember key.topic).mpr (mem_of_seatAt hturn)⟩
  balanced := by
    intro topic assignment hassignment other hother hsubscribes hsubscribes'
    obtain ⟨j, hmember, hpartitions⟩ := mem_dealt.mp hassignment
    obtain ⟨j', hmember', hpartitions'⟩ := mem_dealt.mp hother
    obtain ⟨start, count, hshare⟩ := share_hand catalog members.values topic
    rw [hpartitions, hpartitions', hshare, hshare]
    exact countP_seatAt_le (nodup_eligible _ _) ((subscribes_iff hmember topic).mp hsubscribes)
      ((subscribes_iff hmember' topic).mp hsubscribes') start count

end Fair

/-- **Assignments are exact and balanced.** From any broker state, what a successful join returns is
a fair assignment of the catalog to the members the group has then. -/
theorem joinGroup_fair {n : ℕ} [NeZero n] (config : ShardConfig) (shards : Fin n → Shard)
    (groupId memberId : Bytes) (subscriptions : List Bytes) (generation : Int)
    (assignments : List GroupAssignment)
    (h : (perform config shards (.joinGroup groupId memberId subscriptions)).2 =
      .ok (.group generation assignments)) :
    FairAssignment config.catalog
      (((perform config shards (.joinGroup groupId memberId subscriptions)).1 0).groups.groupOf
        groupId).members assignments := by
  obtain ⟨hview, hresult⟩ :=
    viewOf_perform config shards (.joinGroup groupId memberId subscriptions)
  have hgroups := congrArg View.groups hview
  rw [hresult] at h
  rw [show ((perform config shards (.joinGroup groupId memberId subscriptions)).1 0).groups = _
    from hgroups]
  simp only [View.perform, Call.program, View.run_map, run_joinGroup] at h ⊢
  rcases hjoin : ((viewOf config shards).groups.join groupId memberId subscriptions
    (catalogPartitions config.catalog)).2 with error | joined
  · rw [hjoin] at h
    cases h
  · rw [hjoin] at h
    obtain ⟨generation', assignments'⟩ := joined
    cases h
    rw [groupOf_join hjoin, (GroupCoordinator.join_ok hjoin).2.2]
    simp only [GroupOp.update, assignPartitions_eq]
    exact fairAssignment_dealt config.catalog _

/-- The second member of a group of two gets the second partition. -/
theorem joinGroup_fair_second :
    let shards := (perform oneTopic (startShards 2) (.joinGroup [103] [97] [[116]])).1
    let joined := perform oneTopic shards (.joinGroup [103] [98] [[116], [120], [116]])
    joined.2 = .ok (.group 2 [⟨[97], [⟨[116], 0⟩]⟩, ⟨[98], [⟨[116], 1⟩]⟩]) ∧
      FairAssignment oneTopic.catalog (((joined.1 0).groups.groupOf [103]).members)
        [⟨[97], [⟨[116], 0⟩]⟩, ⟨[98], [⟨[116], 1⟩]⟩] := by
  intro shards joined
  have hjoined : joined.2 =
      .ok (.group 2 [⟨[97], [⟨[116], 0⟩]⟩, ⟨[98], [⟨[116], 1⟩]⟩]) := by decide
  exact ⟨hjoined, joinGroup_fair oneTopic shards [103] [98] [[116], [120], [116]] 2 _ hjoined⟩

end CharlotteBroker.Runtime
