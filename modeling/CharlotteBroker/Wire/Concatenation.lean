import CharlotteBroker.Wire.RecordBatch

/-!
# Concatenated record sets

The decoder of a record set loops over batches and carries along the records and the producer
identity seen so far. A batch is framed by its length, so what follows it does not matter
(`local_nextBatch`), and the loop over two sets is the loop over the first and then, from there, the
loop over the second (`run_whileMore_append`).

The second loop does not start from nothing. `outcome_from` compares it with the loop that
does: the records are the same, and the identity is joined to the one it starts with
(`joinIdentity`), which fails exactly when the two differ.

* `decodeRecordBatches_concat`: what the decoder makes of two sets in a row.
-/

namespace CharlotteBroker.Wire

open Lib Lib.Parser CharlotteBroker.Core

/-! ## Joining identities -/

/-- The identity after a set that carries `own`, given the one seen before it. -/
def joinIdentity (seen own : Option (Int64 × Int16)) : Except Error (Option (Int64 × Int16)) :=
  match own with
  | none => .ok seen
  | some next => if seen.any (· ≠ next) then .error .invalid else .ok (some next)

/-- A batch joins in its own identity if its transactional bit is set. -/
theorem nextIdentity_eq_join (attributes : Int16) (next : Int64 × Int16)
    (seen : Option (Int64 × Int16)) :
    nextIdentity attributes next seen =
      joinIdentity seen (if attributes &&& 0x10 ≠ 0 then some next else none) := by
  unfold nextIdentity
  split_ifs <;> simp_all [joinIdentity]

/-- A batch without an identity changes nothing. -/
@[simp] theorem joinIdentity_none (seen : Option (Int64 × Int16)) :
    joinIdentity seen none = .ok seen := rfl

/-- An identity is joined if none was seen or the same one. -/
theorem joinIdentity_some (seen : Option (Int64 × Int16)) (next : Int64 × Int16) :
    joinIdentity seen (some next) =
      if seen = none ∨ seen = some next then .ok (some next) else .error .invalid := by
  rcases seen with _ | identity
  · rfl
  · by_cases h : identity = next
    · simp [joinIdentity, h]
    · simp [joinIdentity, h]

/-- From nothing seen, any identity is taken over. -/
theorem joinIdentity_start (own : Option (Int64 × Int16)) : joinIdentity none own = .ok own := by
  rcases own with _ | next
  · rfl
  · rfl

/-- An identity that has been seen is what a join gives. -/
theorem joinIdentity_kept {seen : Int64 × Int16} {own after : Option (Int64 × Int16)}
    (h : joinIdentity (some seen) own = .ok after) : after = some seen := by
  rcases own with _ | next
  · cases h
    rfl
  · rw [joinIdentity_some] at h
    by_cases hagrees : some seen = none ∨ some seen = some next
    · rw [if_pos hagrees] at h
      cases h
      exact (hagrees.resolve_left (Option.some_ne_none _)).symm
    · rw [if_neg hagrees] at h
      cases h

/-- Compatible identities join to the one there is. -/
theorem joinIdentity_of_compatible {seen own : Option (Int64 × Int16)}
    (h : seen = own ∨ seen = none ∨ own = none) : joinIdentity seen own = .ok (seen.or own) := by
  rcases own with _ | next
  · rcases seen with _ | identity
    · rfl
    · rfl
  · rw [joinIdentity_some]
    rcases h with rfl | rfl | h
    · simp
    · simp
    · cases h

/-- Different identities are refused. -/
theorem joinIdentity_of_ne {seen own : Int64 × Int16} (h : seen ≠ own) :
    joinIdentity (some seen) (some own) = .error .invalid := by
  rw [joinIdentity_some, if_neg]
  simpa using h

/-- Joining two in a row is joining what they join to. -/
theorem joinIdentity_assoc {before seen own after joined : Option (Int64 × Int16)}
    (hbefore : joinIdentity before seen = .ok joined) (hown : joinIdentity seen own = .ok after) :
    joinIdentity joined own = joinIdentity before after := by
  rcases own with _ | next
  · cases hown
    exact hbefore.symm
  · rw [joinIdentity_some] at hown
    split_ifs at hown with hseen
    cases hown
    rcases hseen with rfl | rfl
    · cases hbefore
      rfl
    · rw [hbefore]
      rw [joinIdentity_some] at hbefore
      split_ifs at hbefore
      cases hbefore
      rw [joinIdentity_some, if_pos (.inr rfl)]

/-! ## One batch -/

/-- What the other readers make of a batch that one reader accepted: they join the identity it
carries to the one they have seen. -/
def Rejoins (seen : Option (Int64 × Int16)) (batch : EncodedBatch)
    (read : Option (Int64 × Int16) → Except Error EncodedBatch) : Prop :=
  ∃ own, joinIdentity seen own = .ok batch.identity ∧
    ∀ other, read other = (joinIdentity other own).map fun identity => { batch with identity }

/-- The fields of a batch are read the same after another identity. -/
theorem follows_batchFields (seen : Option (Int64 × Int16)) (batch : Bytes) :
    Follows (batchFields seen batch) (fun other => batchFields other batch) (Rejoins seen) := by
  unfold batchFields
  refine Follows.field _ fun _ => Follows.field _ fun _ => Follows.field _ fun _ => ?_
  refine Follows.field _ fun _ => Follows.field _ fun _ => Follows.field _ fun attributes => ?_
  refine Follows.field _ fun _ => Follows.field _ fun _ => Follows.field _ fun firstTimestamp => ?_
  refine Follows.field _ fun _ => Follows.field _ fun producerId => ?_
  refine Follows.field _ fun producerEpoch => Follows.field _ fun _ => Follows.field _ fun _ => ?_
  refine Follows.field _ fun _ => ?_
  -- the identity is joined before the records are read
  intro input encoded rest hrun
  obtain ⟨identity, _, hidentity, hrun⟩ := run_bind_ok.mp hrun
  obtain ⟨hjoin, rfl⟩ := run_ofExcept_ok.mp hidentity
  obtain ⟨records, _, hrecords, hrun⟩ := run_bind_ok.mp hrun
  obtain ⟨rfl, rfl⟩ := run_pure_ok.mp hrun
  rw [nextIdentity_eq_join] at hjoin
  refine ⟨_, ⟨_, hjoin, fun other => rfl⟩, fun other => ?_⟩
  simp only [nextIdentity_eq_join]
  rcases joinIdentity other _ with error | joined
  · rfl
  · rw [run_bind_of_ok (run_ofExcept_ok.mpr ⟨rfl, rfl⟩), run_bind_of_ok hrecords]
    rfl

/-- A batch is read the same after another identity. -/
theorem follows_readBatch (seen : Option (Int64 × Int16)) :
    Follows (readBatch seen) readBatch (Rejoins seen) := by
  unfold readBatch
  refine Follows.field _ fun _ => Follows.field _ fun _ => Follows.field _ fun _ => ?_
  refine Follows.field _ fun _ => Follows.field _ fun _ => Follows.field _ fun batch => ?_
  exact (follows_batchFields seen batch).whole

/-- What follows a batch has no influence on it. -/
theorem local_nextBatch (seen : List EncodedBatch × Option (Int64 × Int16)) :
    Local (nextBatch seen) := by
  intro input a rest more hrun
  obtain ⟨batch, middle, hbatch, hpure⟩ := run_bind_ok.mp hrun
  obtain ⟨rfl, rfl⟩ := run_pure_ok.mp hpure
  obtain ⟨baseOffset, body, hmin, hmax, hwhole, rfl⟩ := run_readBatch_ok.mp hbatch
  refine run_bind_ok.mpr ⟨batch, middle ++ more, run_readBatch_ok.mpr ?_, rfl⟩
  exact ⟨baseOffset, body, hmin, hmax, hwhole, by simp only [List.append_assoc]⟩

/-! ## The loop -/

/-- An identity, once seen, stays. -/
theorem identity_kept {batches batches' : List EncodedBatch} {identity : Int64 × Int16}
    {last : Option (Int64 × Int16)} {input rest : Bytes}
    (h : (whileMore nextBatch (batches, some identity)).run input = .ok ((batches', last), rest)) :
    last = some identity := by
  have hstep : ∀ s t : List EncodedBatch × Option (Int64 × Int16), s = t ∧ s.2 = some identity →
      Tracks (nextBatch s) (nextBatch t) fun s t => s = t ∧ s.2 = some identity := by
    rintro ⟨seen, _⟩ _ ⟨rfl, rfl⟩ input s' rest hrun
    refine ⟨s', hrun, rfl, ?_⟩
    obtain ⟨batch, middle, hbatch, hpure⟩ := run_bind_ok.mp hrun
    obtain ⟨rfl, rfl⟩ := run_pure_ok.mp hpure
    obtain ⟨_, ⟨own, hown, -⟩, -⟩ := follows_readBatch (some identity) _ _ _ hbatch
    exact joinIdentity_kept hown
  obtain ⟨_, _, _, hlast⟩ := Tracks.whileMore hstep ⟨rfl, rfl⟩ _ _ _ h
  exact hlast

/-- The records of the batches of a set. -/
def dataOf (batches : List EncodedBatch) : List RecordData := batches.flatMap EncodedBatch.data

/-- The records of one more batch come last. -/
theorem dataOf_concat (batches : List EncodedBatch) (batch : EncodedBatch) :
    dataOf (batches ++ [batch]) = dataOf batches ++ batch.data := by
  rw [dataOf, List.flatMap_append, List.flatMap_singleton]
  rfl

/-- What a loop reads, in the records and the identity it ends with. -/
def outcome (result : Except Error ((List EncodedBatch × Option (Int64 × Int16)) × Bytes)) :
    Except Error (List RecordData × Option (Int64 × Int16)) :=
  result.map fun read => (dataOf read.1.1, read.1.2)

/-- **The loop from another start.** Whatever the loop reads from one start, from another it reads
the same records, and joins the identities. -/
theorem outcome_from {start : List EncodedBatch × Option (Int64 × Int16)}
    {batches others : List EncodedBatch} {before joined last : Option (Int64 × Int16)}
    {input rest : Bytes} (hjoined : joinIdentity before start.2 = .ok joined)
    (h : (whileMore nextBatch start).run input = .ok ((batches, last), rest)) :
    ∃ records, dataOf batches = dataOf start.1 ++ records ∧
      outcome ((whileMore nextBatch (others, joined)).run input) =
        (joinIdentity before last).map (dataOf others ++ records, ·) := by
  induction start, input using whileMore_induction consumes_nextBatch
    generalizing others before joined with
  | hnil start =>
      obtain ⟨rfl, -⟩ := run_pure_ok.mp h
      refine ⟨[], (List.append_nil _).symm, ?_⟩
      rw [hjoined, List.append_nil]
      rfl
  | hcons start b input ih =>
      rw [whileMore_cons consumes_nextBatch] at h ⊢
      obtain ⟨next, middle, hnext, hrun⟩ := run_bind_ok.mp h
      obtain ⟨batch, left, hbatch, hpure⟩ := run_bind_ok.mp hnext
      obtain ⟨rfl, rfl⟩ := run_pure_ok.mp hpure
      obtain ⟨read, ⟨own, hown, hread⟩, hfollows⟩ := follows_readBatch start.2 _ _ _ hbatch
      have hother := hfollows joined
      rw [hread joined, joinIdentity_assoc hjoined hown] at hother
      rcases hafter : joinIdentity before batch.identity with error | after
      · -- the batch carries a different identity, and the loop would end with it
        rw [hafter] at hother
        have hstep : (nextBatch (others, joined) >>= whileMore nextBatch).run (b :: input) =
            .error error := by
          rw [nextBatch, StateT.run_bind, StateT.run_bind, hother]
          rfl
        have hlast : last = batch.identity := by
          rcases hidentity : batch.identity with _ | identity
          · rw [hidentity] at hafter
            cases hafter
          · rw [hidentity] at hrun
            exact identity_kept hrun
        obtain ⟨records, hrecords, -⟩ := @ih _ _ hnext [] none _ (joinIdentity_start _) hrun
        refine ⟨batch.data ++ records, ?_, ?_⟩
        · rw [hrecords, dataOf_concat, List.append_assoc]
        · rw [hstep, hlast, hafter]
          rfl
      · rw [hafter] at hother
        have hstep : (nextBatch (others, joined)).run (b :: input) =
            .ok ((others ++ [{ batch with identity := after }], after), left) :=
          run_bind_ok.mpr ⟨_, _, hother, rfl⟩
        rw [run_bind_of_ok hstep]
        obtain ⟨records, hrecords, houtcome⟩ := @ih _ _ hnext
          (others ++ [{ batch with identity := after }]) before after hafter hrun
        refine ⟨batch.data ++ records, ?_, ?_⟩
        · rw [hrecords, dataOf_concat, List.append_assoc]
        · rw [houtcome, dataOf_concat, List.append_assoc]
          rfl

/-! ## Two sets in a row -/

/-- The set decoder is the fold over its batches. -/
theorem decodeV2RecordSet_eq {bytes : Bytes} (h : bytes.isEmpty = false) :
    decodeV2RecordSet bytes = (outcome (readBatches bytes)).map fun read => ⟨read.1, read.2⟩ := by
  unfold decodeV2RecordSet
  rw [h]
  rcases readBatches bytes with error | read
  · rfl
  · rfl

/-- A set with magic byte two is the fold over its batches. -/
theorem decodeRecordBatchesWithIdentity_v2 {bytes : Bytes} (h : bytes[16]? = some 2) :
    decodeRecordBatchesWithIdentity bytes =
      (outcome (readBatches bytes)).map fun read => ⟨read.1, read.2⟩ := by
  have hne : bytes.isEmpty = false := by
    rcases bytes with _ | ⟨b, bytes⟩
    · cases h
    · rfl
  rw [← decodeV2RecordSet_eq hne]
  unfold decodeRecordBatchesWithIdentity
  rw [hne, h]
  rfl

/-- What is accepted was read to its end. -/
theorem readBatches_of_decoded {bytes : Bytes} {decoded : DecodedRecordBatch}
    (hmagic : bytes[16]? = some 2) (h : decodeRecordBatchesWithIdentity bytes = .ok decoded) :
    ∃ batches, readBatches bytes = .ok ((batches, decoded.producer), []) ∧
      dataOf batches = decoded.records := by
  rw [decodeRecordBatchesWithIdentity_v2 hmagic] at h
  rcases hread : readBatches bytes with error | ⟨⟨batches, identity⟩, rest⟩
  · rw [hread] at h
    cases h
  · rw [hread] at h
    cases h
    exact ⟨batches, by rw [eq_nil_of_whileMore consumes_nextBatch hread], rfl⟩

/-- The decoder over two accepted sets joins what it makes of each. -/
theorem decode_append {a b : Bytes} {first second : DecodedRecordBatch}
    (ha : a[16]? = some 2) (hb : b[16]? = some 2)
    (hfirst : decodeRecordBatchesWithIdentity a = .ok first)
    (hsecond : decodeRecordBatchesWithIdentity b = .ok second) :
    decodeRecordBatchesWithIdentity (a ++ b) =
      (joinIdentity first.producer second.producer).map
        fun identity => ⟨first.records ++ second.records, identity⟩ := by
  obtain ⟨batches, hread, hdata⟩ := readBatches_of_decoded ha hfirst
  obtain ⟨batches', hread', hdata'⟩ := readBatches_of_decoded hb hsecond
  have hmagic : (a ++ b)[16]? = some 2 := by
    obtain ⟨hlt, -⟩ := List.getElem?_eq_some_iff.mp ha
    rw [List.getElem?_append_left hlt, ha]
  have happend : readBatches (a ++ b) =
      (whileMore nextBatch (batches, first.producer)).run b :=
    run_whileMore_append consumes_nextBatch local_nextBatch b hread
  obtain ⟨records, hrecords, houtcome⟩ :=
    @outcome_from _ _ batches first.producer _ _ _ _ (joinIdentity_none _) hread'
  have hsame : records = second.records := hrecords.symm.trans hdata'
  rw [decodeRecordBatchesWithIdentity_v2 hmagic, happend, houtcome, hdata, hsame]
  rcases joinIdentity first.producer second.producer with error | identity
  · rfl
  · rfl

/-- **Concatenation.** For two non-empty record sets that the decoder accepts on the v2 path: if
their identities agree or one of them is absent, it accepts the two in a row, with the records of
the first followed by those of the second and the identity that is present; and if the identities
differ, it refuses them. -/
theorem decodeRecordBatches_concat (a b : Bytes) (first second : DecodedRecordBatch)
    (ha : a[16]? = some 2) (hb : b[16]? = some 2)
    (hfirst : decodeRecordBatchesWithIdentity a = .ok first)
    (hsecond : decodeRecordBatchesWithIdentity b = .ok second) :
    (first.producer = second.producer ∨ first.producer = none ∨ second.producer = none →
        decodeRecordBatchesWithIdentity (a ++ b) =
          .ok ⟨first.records ++ second.records, first.producer.or second.producer⟩) ∧
      (first.producer.isSome = true → second.producer.isSome = true →
        first.producer ≠ second.producer →
        decodeRecordBatchesWithIdentity (a ++ b) = .error .invalid) := by
  have happend := decode_append ha hb hfirst hsecond
  constructor
  · intro hcompatible
    rw [happend, joinIdentity_of_compatible hcompatible]
    rfl
  · intro hsome hsome' hne
    obtain ⟨identity, hidentity⟩ := Option.isSome_iff_exists.mp hsome
    obtain ⟨identity', hidentity'⟩ := Option.isSome_iff_exists.mp hsome'
    rw [hidentity, hidentity', ne_eq, Option.some.injEq] at hne
    rw [happend, hidentity, hidentity', joinIdentity_of_ne hne]
    rfl

/-- A batch of one record with these attributes and this producer. -/
def producerBatch (attributes : Int16) (producer : Int64 × Int16) : Bytes :=
  let covered := i16Bytes attributes ++ i32Bytes 0 ++ i64Bytes 0 ++ i64Bytes 0 ++
    i64Bytes producer.1 ++ i16Bytes producer.2 ++ i32Bytes (-1) ++ i32Bytes 1 ++
    [14, 0, 0, 0, 1, 2, 97, 0]
  let body := batchBody (crc32c covered) covered
  i64Bytes 0 ++ (i32Bytes (Int32.ofNat body.length) ++ body)

/-- A plain batch and a transactional one in a row, and two transactional ones of different
producers. -/
theorem decodeRecordBatches_concat_mixed :
    decodeRecordBatchesWithIdentity (producerBatch 0 (-1, -1) ++ producerBatch 0x10 (7, 2)) =
        .ok ⟨[⟨0, none, some [97]⟩, ⟨0, none, some [97]⟩], some (7, 2)⟩ ∧
      decodeRecordBatchesWithIdentity (producerBatch 0x10 (7, 2) ++ producerBatch 0x10 (7, 3)) =
        .error .invalid := by
  have hplain : decodeRecordBatchesWithIdentity (producerBatch 0 (-1, -1)) =
      .ok ⟨[⟨0, none, some [97]⟩], none⟩ := by decide +kernel
  have hold : decodeRecordBatchesWithIdentity (producerBatch 0x10 (7, 2)) =
      .ok ⟨[⟨0, none, some [97]⟩], some (7, 2)⟩ := by decide +kernel
  have hnew : decodeRecordBatchesWithIdentity (producerBatch 0x10 (7, 3)) =
      .ok ⟨[⟨0, none, some [97]⟩], some (7, 3)⟩ := by decide +kernel
  constructor
  · exact (decodeRecordBatches_concat _ _ _ _ (by decide +kernel) (by decide +kernel) hplain
      hold).1 (by decide)
  · exact (decodeRecordBatches_concat _ _ _ _ (by decide +kernel) (by decide +kernel) hold
      hnew).2 (by decide) (by decide) (by decide)

end CharlotteBroker.Wire
