import CharlotteBroker.Runtime.Assignment
import CharlotteBroker.Runtime.Tenure

/-!
# Groups among clients

What clients that join, leave and send heartbeats at the same time are told of their group, in every
run. The members of a group are read off the history: those whose last granted request was a join
(`roster`).

* `generations_assigned`: an answered join carries a fair assignment of the partitions to the
  members of a moment of its interval, and no two joins are answered with the same generation.
* `heartbeats_last_joiner`: a heartbeat is granted only to the member whose join opened the current
  generation, so that in one generation at most one member can send them.
-/

namespace CharlotteBroker.Core

open Std Lib

/-- What an operation says about a member of the group: that it is in, with these subscriptions, or
that it is out. -/
def GroupOp.membership (group member : Bytes) : GroupOp → Option (Option (List Bytes))
  | .join groupId memberId subscriptions _ =>
      if groupId = group ∧ memberId = member then some (some subscriptions) else none
  | .leave groupId memberId _ | .leaveAny groupId memberId =>
      if groupId = group ∧ memberId = member then some none else none
  | .heartbeat .. | .commitOffset .. => none

/-- What a granted operation leaves of a member. -/
inductive Member (group : Group) (member : Bytes) : GroupOp → Option GroupMember → Prop
  | joined (groupId : Bytes) (subscriptions : List Bytes) (partitions : List TopicPartition) :
      Member group member (.join groupId member subscriptions partitions)
        (some ⟨subscriptions, nextGeneration group.generation, true⟩)
  | left {op : GroupOp} (out : op.membership op.groupId member = some none) :
      Member group member op none
  | kept {op : GroupOp} {found : Option GroupMember}
      (silent : op.membership op.groupId member = none)
      (same : found.map GroupMember.subscriptions =
        group.members[member]?.map GroupMember.subscriptions)
      (aged : found.map GroupMember.generation = group.members[member]?.map GroupMember.generation) :
      Member group member op found

theorem member_update (group : Group) (op : GroupOp) (member : Bytes) :
    Member group member op (op.update group).members[member]? := by
  cases op with
  | join groupId memberId subscriptions partitions =>
      simp only [GroupOp.update, getElem?_insert_eq_ite]
      by_cases hsame : member = memberId
      · subst hsame
        rw [if_pos rfl]
        exact .joined groupId subscriptions partitions
      · rw [if_neg hsame]
        exact .kept (if_neg fun h => hsame h.2.symm) rfl rfl
  | heartbeat groupId memberId generation =>
      simp only [GroupOp.update]
      rcases hfound : group.members[memberId]? with _ | found
      · exact .kept rfl rfl rfl
      · simp only [getElem?_insert_eq_ite]
        by_cases hsame : member = memberId
        · subst hsame
          rw [if_pos rfl]
          exact .kept rfl (by rw [hfound]; rfl) (by rw [hfound]; rfl)
        · rw [if_neg hsame]
          exact .kept rfl rfl rfl
  | leave groupId memberId generation =>
      simp only [GroupOp.update, getElem?_erase_eq_ite]
      by_cases hsame : member = memberId
      · rw [if_pos hsame]
        exact .left (if_pos ⟨rfl, hsame.symm⟩)
      · rw [if_neg hsame]
        exact .kept (if_neg fun h => hsame h.2.symm) rfl rfl
  | leaveAny groupId memberId =>
      simp only [GroupOp.update, getElem?_erase_eq_ite]
      by_cases hsame : member = memberId
      · rw [if_pos hsame]
        exact .left (if_pos ⟨rfl, hsame.symm⟩)
      · rw [if_neg hsame]
        exact .kept (if_neg fun h => hsame h.2.symm) rfl rfl
  | commitOffset groupId generation topic partition offset => exact .kept rfl rfl rfl

theorem GroupOp.membership_of_ne {op : GroupOp} {group : Bytes} (h : group ≠ op.groupId)
    (member : Bytes) : op.membership group member = none := by
  cases op with
  | join => exact if_neg fun hsame => h hsame.1.symm
  | leave => exact if_neg fun hsame => h hsame.1.symm
  | leaveAny => exact if_neg fun hsame => h hsame.1.symm
  | heartbeat => rfl
  | commitOffset => rfl

/-- The subscriptions of a member after a granted or refused operation. -/
theorem subscriptions_apply (groups : GroupCoordinator) (op : GroupOp) (group member : Bytes) :
    ((op.apply groups).groupOf group).members[member]?.map GroupMember.subscriptions =
      (if op.accepted groups then op.membership group member else none).getD
        ((groups.groupOf group).members[member]?.map GroupMember.subscriptions) := by
  by_cases haccepted : op.accepted groups = true
  · rw [GroupOp.groupOf_apply haccepted, if_pos haccepted]
    by_cases hgroup : group = op.groupId
    · subst hgroup
      rw [if_pos rfl]
      have hmember := member_update (groups.groupOf op.groupId) op member
      generalize (op.update (groups.groupOf op.groupId)).members[member]? = found at hmember ⊢
      cases hmember with
      | joined groupId subscriptions partitions =>
          rw [GroupOp.membership, if_pos ⟨rfl, rfl⟩]
          rfl
      | left out =>
          rw [out]
          rfl
      | kept silent same aged =>
          rw [silent]
          exact same
    · rw [if_neg hgroup, GroupOp.membership_of_ne hgroup]
      rfl
  · rw [GroupOp.apply_of_refused (Bool.not_eq_true _ ▸ haccepted), if_neg haccepted]
    rfl

end CharlotteBroker.Core

namespace CharlotteBroker.Runtime

open CharlotteBroker.Core Lib Lib.Rpc

variable {T : Type} {n : ℕ}

/-! ## The members of a group -/

/-- The group operation that was granted. -/
def grantedGroup : BrokerEvent T n → Option GroupOp
  | .applied _ _ (.coordinate request) (.coordination (.ok _)) => request.groupOp?
  | _ => none

/-- Who is a member before the event at `k`, with what subscriptions: those whose last granted
request was a join. -/
def roster (history : List (BrokerEvent T n)) (group : Bytes) (k : ℕ) (member : Bytes) :
    Option (List Bytes) :=
  (((history.take k).filterMap grantedGroup).filterMap
    (GroupOp.membership group member)).getLast?.join

theorem roster_succ {history : List (BrokerEvent T n)} {group member : Bytes} {k : ℕ}
    {event : BrokerEvent T n} (hat : At history k event) :
    roster history group (k + 1) member =
      ((grantedGroup event).bind (GroupOp.membership group member)).getD
        (roster history group k member) := by
  unfold roster
  rw [hat.take_succ, List.filterMap_append, List.filterMap_append, List.getLast?_append]
  rcases hgranted : grantedGroup event with _ | op
  · simp [hgranted]
  · rcases hstatus : op.membership group member with _ | status
    · simp [hgranted, hstatus]
    · simp [hgranted, hstatus]

variable [NeZero n]

section Runs

variable {config : ShardConfig} {broker : BrokerConfig} [DecidableEq T]
  {history : List (BrokerEvent T n)} {net : BrokerNet T n} {t : T} {i j k : ℕ}
  {group member : Bytes} {subscriptions : List Bytes} {generation : Int}
  {assignments : List GroupAssignment}

variable (h : Runs (system broker config) (startShards n) history net)
include h

/-- A request is granted exactly if the coordinator accepts the operation. -/
theorem grantedGroup_eq {event : BrokerEvent T n} (hat : At history k event) :
    grantedGroup event =
      (askedGroup event).filter fun op => op.accepted (groupsAt config history k) := by
  rcases hasked : askedGroup event with _ | op
  · unfold grantedGroup
    split
    · exact hasked
    · rfl
  · obtain ⟨shard, chan, request, result, rfl, hrequest⟩ := askedGroup_eq_some hasked
    have haccepted := (coordinate_groupOp (transactionsAt config history k)
      (groupsAt config history k) hrequest).2
    obtain ⟨rfl, -⟩ := applied_coordinate h hat
    rw [Option.filter_some, ← haccepted]
    unfold grantedGroup transactionsAt groupsAt
    generalize (Runtime.coordinate _ _ _).2 = answer
    rcases answer with error | value
    · rfl
    · exact hrequest

/-- The members the coordinator knows are those on the roster. -/
theorem roster_eq (hk : k ≤ history.length) :
    ((groupsAt config history k).groupOf group).members[member]?.map GroupMember.subscriptions =
      roster history group k member := by
  induction k with
  | zero =>
      rw [groupsAt_eq_run]
      simp [roster, groupOps, GroupCoordinator.groupOf_new, Group.new]
  | succ k ih =>
      obtain ⟨event, hat⟩ : ∃ event, At history k event := ⟨_, List.getElem?_eq_getElem hk⟩
      rw [groupsAt_succ config history hat, roster_succ hat, grantedGroup_eq h hat, ← ih (by omega)]
      rcases askedGroup event with _ | op
      · rfl
      · rw [Option.elim_some, subscriptions_apply, Option.filter_some]
        by_cases haccepted : op.accepted (groupsAt config history k) = true
        · rw [if_pos haccepted, if_pos haccepted]
          rfl
        · rw [if_neg haccepted, if_neg haccepted]
          rfl

/-! ## Joins -/

/-- What an assignment owes the members on a roster. -/
structure Shares (catalog : TopicCatalog) (roster : Bytes → Option (List Bytes))
    (assignments : List GroupAssignment) : Prop where
  distinct : (assignments.map GroupAssignment.memberId).Nodup
  listed : ∀ member, member ∈ assignments.map GroupAssignment.memberId ↔ (roster member).isSome
  once : ∀ topic partition, catalog.checkPartition topic partition = .ok () →
    (∃ member, topic ∈ (roster member).getD []) →
      (assignments.flatMap GroupAssignment.partitions).count ⟨topic, partition⟩ = 1
  subscribed : ∀ assignment ∈ assignments, ∀ key ∈ assignment.partitions,
    catalog.checkPartition key.topic key.partition = .ok () ∧
      key.topic ∈ (roster assignment.memberId).getD []
  balanced : ∀ topic, ∀ assignment ∈ assignments, ∀ other ∈ assignments,
    topic ∈ (roster assignment.memberId).getD [] → topic ∈ (roster other.memberId).getD [] →
      share topic assignment.partitions ≤ share topic other.partitions + 1

omit h in
theorem subscribes_iff_roster {members : Std.ExtTreeMap Bytes GroupMember}
    {roster : Bytes → Option (List Bytes)}
    (h : ∀ member : Bytes, members[member]?.map GroupMember.subscriptions = roster member)
    (member topic : Bytes) : Subscribes members member topic ↔ topic ∈ (roster member).getD [] := by
  unfold Subscribes
  rw [← h member]
  rcases members[member]? with _ | found
  · simp
  · simp

omit h in
theorem FairAssignment.shares {catalog : TopicCatalog}
    {members : Std.ExtTreeMap Bytes GroupMember} {roster : Bytes → Option (List Bytes)}
    (hfair : FairAssignment catalog members assignments)
    (h : ∀ member : Bytes, members[member]?.map GroupMember.subscriptions = roster member) :
    Shares catalog roster assignments where
  distinct := by
    rw [hfair.entries]
    exact Std.ExtTreeMap.nodup_keys
  listed member := by
    rw [hfair.entries, Std.ExtTreeMap.mem_keys, Std.ExtTreeMap.mem_iff_isSome_getElem?, ← h member,
      Option.isSome_map]
  once topic partition hcheck hsome := by
    refine hfair.once topic partition hcheck ?_
    obtain ⟨member, hmember⟩ := hsome
    exact ⟨member, (subscribes_iff_roster h member topic).mpr hmember⟩
  subscribed assignment hassignment key hkey := by
    obtain ⟨hcheck, hsubscribes⟩ := hfair.subscribed assignment hassignment key hkey
    exact ⟨hcheck, (subscribes_iff_roster h _ _).mp hsubscribes⟩
  balanced topic assignment hassignment other hother hsubscribes hsubscribes' :=
    hfair.balanced topic assignment hassignment other hother
      ((subscribes_iff_roster h _ _).mpr hsubscribes) ((subscribes_iff_roster h _ _).mpr hsubscribes')

/-- A join of the member was granted at `k` with that generation. -/
def JoinedAt (history : List (BrokerEvent T n)) (group member : Bytes) (generation : Int) (k : ℕ) :
    Prop :=
  ∃ subscriptions partitions assignments,
    AskedAt history (.joinGroup group member subscriptions partitions)
      (.ok (.group generation assignments)) k

omit h [DecidableEq T] in
/-- One join is granted at a time. -/
theorem JoinedAt.member_eq {member' : Bytes} {generation' : Int}
    (hjoined : JoinedAt history group member generation k)
    (hjoined' : JoinedAt history group member' generation' k) : member = member' := by
  obtain ⟨_, _, _, _, hat⟩ := hjoined
  obtain ⟨_, _, _, _, hat'⟩ := hjoined'
  cases hat.eq hat'
  rfl

theorem JoinedAt.opens (hjoined : JoinedAt history group member generation k) :
    generationAt config history group (k + 1) = generation := by
  obtain ⟨subscriptions, partitions, assignments, hasked⟩ := hjoined
  exact hasked.generation h

theorem JoinedAt.changes (hjoined : JoinedAt history group member generation k) :
    changesBy history group (k + 1) = changesBy history group k + 1 := by
  obtain ⟨subscriptions, partitions, assignments, hasked⟩ := hjoined
  exact hasked.changes h rfl (beq_self_eq_true group)

/-- With room for the count, a generation is opened once. -/
theorem JoinedAt.unique (hfew : (groupOps history).countP (GroupOp.changes group) < 2 ^ 31 - 1)
    {member' : Bytes} {k' : ℕ} (hjoined : JoinedAt history group member generation k)
    (hjoined' : JoinedAt history group member' generation k') : k = k' := by
  have hgeneration := hjoined.opens h
  have hgeneration' := hjoined'.opens h
  rw [generationAt_eq, i32Max] at hgeneration hgeneration'
  have hroom := changesBy_le history group (k + 1)
  have hroom' := changesBy_le history group (k' + 1)
  have hchanges := hjoined.changes h
  have hchanges' := hjoined'.changes h
  rcases Nat.lt_trichotomy k k' with hlt | heq | hgt
  · have hmono := changesBy_mono history group (show k + 1 ≤ k' from hlt)
    omega
  · exact heq
  · have hmono := changesBy_mono history group (show k' + 1 ≤ k from hgt)
    omega

/-- The assignment of a granted join is fair to the members on the roster. -/
theorem AskedAt.shares (hasked : AskedAt history
      (.joinGroup group member subscriptions (catalogPartitions config.catalog))
      (.ok (.group generation assignments)) k) :
    Shares config.catalog (roster history group (k + 1)) assignments := by
  obtain ⟨hstate, hok⟩ := Prod.ext_iff.mp (hasked.join h)
  obtain ⟨-, -, rfl⟩ := GroupCoordinator.join_ok hok
  have hlen : k + 1 ≤ history.length := by
    obtain ⟨chan, hat⟩ := hasked
    exact hat.lt
  refine FairAssignment.shares ?_ fun member => roster_eq h hlen
  rw [← show _ = groupsAt config history (k + 1) from hstate, groupOf_join hok]
  simp only [GroupOp.update, assignPartitions_eq]
  exact fairAssignment_dealt config.catalog _

omit h in
/-- **Every generation has one assignment.** An answered join carries a fair assignment of the
partitions to the members of one moment of its interval; no other join is answered with its
generation, and a join that begins after it was answered gets a later one. -/
theorem generations_assigned (h : Runs (system broker config) (startShards n) history net)
    (hfew : (groupOps history).countP (GroupOp.changes group) < 2 ^ 31 - 1)
    (hran : Ran history t (.joinGroup group member subscriptions)
      (.ok (.group generation assignments)) i j)
    {t' : T} {member' : Bytes} {subscriptions' : List Bytes} {generation' : Int}
    {assignments' : List GroupAssignment} {i' j' : ℕ}
    (hran' : Ran history t' (.joinGroup group member' subscriptions')
      (.ok (.group generation' assignments')) i' j') :
    (∃ k, i < k ∧ k < j ∧
        Shares config.catalog (roster history group (k + 1)) assignments) ∧
      (generation = generation' → j = j') ∧ (j < i' → generation < generation') := by
  obtain ⟨k, hik, hkj, hserved, hasked⟩ := hran.joined h
  obtain ⟨k', hik', hkj', hserved', hasked'⟩ := hran'.joined h
  have hjoined : JoinedAt history group member generation k := ⟨_, _, _, hasked⟩
  have hjoined' : JoinedAt history group member' generation' k' := ⟨_, _, _, hasked'⟩
  refine ⟨⟨k, hik, hkj, hasked.shares h⟩, ?_, ?_⟩
  · rintro rfl
    obtain rfl := hjoined.unique h hfew hjoined'
    exact Served.eq h hran.spans hran.returned hran'.spans hran'.returned hserved hserved'
  · intro hafter
    have hgeneration := hjoined.opens h
    have hgeneration' := hjoined'.opens h
    rw [generationAt_eq, i32Max] at hgeneration hgeneration'
    have hchanges' := hjoined'.changes h
    have hmono := changesBy_mono history group (show k + 1 ≤ k' by omega)
    have hroom' := changesBy_le history group (k' + 1)
    omega

/-! ## Heartbeats -/

theorem exists_joinedAt_of_accepted {event : BrokerEvent T n} (hat : At history k event)
    {partitions : List TopicPartition}
    (hasked : askedGroup event = some (.join group member subscriptions partitions))
    (haccepted : (GroupOp.join group member subscriptions partitions).accepted
      (groupsAt config history k) = true) :
    JoinedAt history group member (nextGeneration (generationAt config history group k)) k := by
  obtain ⟨shard, chan, request, result, rfl, hrequest⟩ := askedGroup_eq_some hasked
  obtain rfl : shard = 0 := applied_routed h hat
  obtain rfl : request = .joinGroup group member subscriptions partitions := by
    cases request <;> cases hrequest
    rfl
  obtain ⟨rfl, -⟩ := applied_coordinate h hat
  rcases hjoin : ((groupsAt config history k).join group member subscriptions partitions).2 with
    error | ⟨generation, assignments⟩
  · unfold GroupOp.accepted GroupOp.perform at haccepted
    simp only [hjoin] at haccepted
    cases haccepted
  · obtain ⟨-, hgeneration, -⟩ := GroupCoordinator.join_ok hjoin
    refine ⟨subscriptions, partitions, assignments, chan, ?_⟩
    have hanswer : (Runtime.coordinate (viewAfter config (history.take k)).transactions
        (viewAfter config (history.take k)).groups
        (.joinGroup group member subscriptions partitions)).2 =
          .ok (.group generation assignments) := by
      unfold groupsAt at hjoin
      simp only [Runtime.coordinate, hjoin]
      rfl
    rw [hanswer, hgeneration] at hat
    exact hat

/-- A member of the group carries the generation of a join that was granted to it. -/
theorem exists_joinedAt (hk : k ≤ history.length) {found : GroupMember}
    (hfound : ((groupsAt config history k).groupOf group).members[member]? = some found) :
    ∃ k' < k, JoinedAt history group member found.generation k' := by
  induction k generalizing found with
  | zero =>
      rw [groupsAt_eq_run] at hfound
      simp [groupOps, GroupCoordinator.groupOf_new, Group.new] at hfound
  | succ k ih =>
      obtain ⟨event, hat⟩ : ∃ event, At history k event := ⟨_, List.getElem?_eq_getElem hk⟩
      have hkept {before : GroupMember}
          (hbefore : ((groupsAt config history k).groupOf group).members[member]? = some before)
          (hgeneration : before.generation = found.generation) :
          ∃ k' < k + 1, JoinedAt history group member found.generation k' := by
        obtain ⟨k', hlt, hjoined⟩ := ih (by omega) hbefore
        exact ⟨k', by omega, hgeneration ▸ hjoined⟩
      rw [groupsAt_succ config history hat] at hfound
      rcases hasked : askedGroup event with _ | op
      · rw [hasked] at hfound
        exact hkept hfound rfl
      · rw [hasked, Option.elim_some] at hfound
        by_cases haccepted : op.accepted (groupsAt config history k) = true
        · rw [GroupOp.groupOf_apply haccepted] at hfound
          by_cases hgroup : group = op.groupId
          · subst hgroup
            rw [if_pos rfl] at hfound
            have hmember :=
              member_update ((groupsAt config history k).groupOf op.groupId) op member
            rw [hfound] at hmember
            cases hmember with
            | joined groupId subscriptions partitions =>
                exact ⟨k, by omega, exists_joinedAt_of_accepted h hat hasked haccepted⟩
            | kept silent same aged =>
                rcases hbefore : ((groupsAt config history k).groupOf op.groupId).members[member]?
                  with _ | before
                · rw [hbefore] at aged
                  cases aged
                · rw [hbefore] at aged
                  exact hkept hbefore (Option.some.inj aged).symm
          · rw [if_neg hgroup] at hfound
            exact hkept hfound rfl
        · rw [GroupOp.apply_of_refused (Bool.not_eq_true _ ▸ haccepted)] at hfound
          exact hkept hfound rfl

/-- A heartbeat is granted to the member whose join opened the generation, while no other change of
membership is granted. -/
theorem Ran.beats (hfew : (groupOps history).countP (GroupOp.changes group) < 2 ^ 31 - 1)
    (hran : Ran history t (.heartbeatGroup group member generation) (.ok .done) i j) :
    ∃ k m, k < m ∧ i < m ∧ m < j ∧ JoinedAt history group member generation k ∧
      changesBy history group m = changesBy history group (k + 1) := by
  obtain ⟨m, value, him, hmj, -, hasked⟩ := hran.granted h rfl
  have hbeat := congrArg Prod.snd (hasked.coordinate h)
  have hlen := hran.returned.lt
  rcases GroupCoordinator.heartbeat_spec (groupsAt config history m) group member generation with
    ⟨error, hrefused⟩ | ⟨known, found, hknown, hgeneration, hfound, hage, -⟩
  · simp only [Runtime.coordinate, hrefused] at hbeat
    cases hbeat
  · have hgroup : (groupsAt config history m).groupOf group = known := by
      rw [GroupCoordinator.groupOf, hknown]
      rfl
    rw [← hgroup] at hfound hgeneration
    obtain ⟨k, hkm, hjoined⟩ := exists_joinedAt h (by omega) hfound
    rw [hage] at hjoined
    refine ⟨k, m, hkm, him, hmj, hjoined, ?_⟩
    have hopened := hjoined.opens h
    have hcurrent : generationAt config history group m = generation := hgeneration
    rw [generationAt_eq, i32Max] at hopened hcurrent
    have hroom := changesBy_le history group m
    have hroom' := changesBy_le history group (k + 1)
    omega

omit h

/-- **One member at a time.** A granted heartbeat comes from the member whose join opened the
generation it shows, with no other join or leave granted in between; so all the heartbeats granted
in one generation come from one member, whatever the size of the group. -/
theorem heartbeats_last_joiner (h : Runs (system broker config) (startShards n) history net)
    (hfew : (groupOps history).countP (GroupOp.changes group) < 2 ^ 31 - 1)
    (hran : Ran history t (.heartbeatGroup group member generation) (.ok .done) i j)
    {t' : T} {member' : Bytes} {i' j' : ℕ}
    (hran' : Ran history t' (.heartbeatGroup group member' generation) (.ok .done) i' j') :
    (∃ k m, k < m ∧ i < m ∧ m < j ∧ JoinedAt history group member generation k ∧
        changesBy history group m = changesBy history group (k + 1)) ∧ member = member' := by
  obtain ⟨k, m, hkm, him, hmj, hjoined, hquiet⟩ := hran.beats h hfew
  obtain ⟨k', m', -, -, -, hjoined', -⟩ := hran'.beats h hfew
  refine ⟨⟨k, m, hkm, him, hmj, hjoined, hquiet⟩, ?_⟩
  obtain rfl := hjoined.unique h hfew hjoined'
  exact hjoined.member_eq hjoined'

end Runs

/-- Two members join; the heartbeat of the first is refused, and the second sends one on either
connection. -/
def secondBeats : List (Label (Fin 2) (Fin 2) Call) := List.flatten
  [visit 0 (.joinGroup [103] [109] [[116]]) [0], visit 1 (.joinGroup [103] [110] [[116]]) [0],
    visit 0 (.heartbeatGroup [103] [109] 2) [0], visit 1 (.heartbeatGroup [103] [110] 2) [0],
    visit 0 (.heartbeatGroup [103] [110] 2) [0]]

def SecondBeats (history : List (BrokerEvent (Fin 2) 2)) : Prop :=
  Ran history 0 (.joinGroup [103] [109] [[116]])
      (.ok (.group 1 [⟨[109], [⟨[116], 0⟩, ⟨[116], 1⟩]⟩])) 0 7 ∧
    Ran history 1 (.joinGroup [103] [110] [[116]])
      (.ok (.group 2 [⟨[109], [⟨[116], 0⟩]⟩, ⟨[110], [⟨[116], 1⟩]⟩])) 8 15 ∧
    Ran history 0 (.heartbeatGroup [103] [109] 2)
      (.error (.coordination .illegalGeneration)) 16 23 ∧
    Ran history 1 (.heartbeatGroup [103] [110] 2) (.ok .done) 24 31 ∧
    Ran history 0 (.heartbeatGroup [103] [110] 2) (.ok .done) 32 39 ∧
    (groupOps history).countP (GroupOp.changes [103]) < 2 ^ 31 - 1

instance (history : List (BrokerEvent (Fin 2) 2)) : Decidable (SecondBeats history) :=
  inferInstanceAs (Decidable (_ ∧ _))

theorem exists_secondBeats :
    ∃ (history : List (BrokerEvent (Fin 2) 2)) (net : BrokerNet (Fin 2) 2),
      Runs (system oneTopicBroker oneTopic) (startShards 2) history net ∧ SecondBeats history :=
  exists_run (system oneTopicBroker oneTopic) (startShards 2) secondBeats _ (by decide +kernel)

theorem generations_assigned_secondBeats :
    ∃ (history : List (BrokerEvent (Fin 2) 2)) (net : BrokerNet (Fin 2) 2),
      Runs (system oneTopicBroker oneTopic) (startShards 2) history net ∧ SecondBeats history ∧
        (∃ k, 0 < k ∧ k < 7 ∧ Shares oneTopic.catalog (roster history [103] (k + 1))
          [⟨[109], [⟨[116], 0⟩, ⟨[116], 1⟩]⟩]) ∧
        ∃ k, 8 < k ∧ k < 15 ∧ Shares oneTopic.catalog (roster history [103] (k + 1))
          [⟨[109], [⟨[116], 0⟩]⟩, ⟨[110], [⟨[116], 1⟩]⟩] := by
  obtain ⟨history, net, hrun, hbeats⟩ := exists_secondBeats
  obtain ⟨hjoin, hjoin', -, -, -, hfew⟩ := id hbeats
  exact ⟨history, net, hrun, hbeats, (generations_assigned hrun hfew hjoin hjoin').1,
    (generations_assigned hrun hfew hjoin' hjoin).1⟩

theorem heartbeats_last_joiner_secondBeats :
    ∃ (history : List (BrokerEvent (Fin 2) 2)) (net : BrokerNet (Fin 2) 2),
      Runs (system oneTopicBroker oneTopic) (startShards 2) history net ∧ SecondBeats history ∧
        ∃ k m, k < m ∧ 32 < m ∧ m < 39 ∧ JoinedAt history [103] [110] 2 k ∧
          changesBy history [103] m = changesBy history [103] (k + 1) := by
  obtain ⟨history, net, hrun, hbeats⟩ := exists_secondBeats
  obtain ⟨-, -, -, hbeat, hbeat', hfew⟩ := id hbeats
  exact ⟨history, net, hrun, hbeats, (heartbeats_last_joiner hrun hfew hbeat' hbeat).1⟩

end CharlotteBroker.Runtime
