import Foton.ChunkSender.Batch
import Foton.Lib.Run
import Mathlib.Data.Finset.Lattice.Lemmas

/-!
# The client follows the sender

What the client has loaded is what the sender has on its books, as long as no
chunk is dropped that was marked pending again after it had been sent.
-/

namespace Foton.ChunkSender

theorem loaded_append (packets packets' : List ClientPacket) :
    loaded (packets ++ packets') = packets'.foldl receive (loaded packets) := List.foldl_append

theorem receive_chunks (chunks : Finset ChunkPos) (selected : List EncodedChunk) :
    (selected.map fun e => ClientPacket.levelChunkWithLight e.pos e.holder e.contentRevision).foldl receive chunks =
      chunks ∪ (selected.map EncodedChunk.pos).toFinset := by
  induction selected generalizing chunks with
  | nil => simp
  | cons e selected ih =>
    rw [List.map_cons, List.foldl_cons, ih]
    rw [receive, Finset.insert_union_comm, List.map_cons, List.toFinset_cons]

@[simp]
theorem loaded_append_forget (packets : List ClientPacket) (pos : ChunkPos) :
    loaded (packets ++ [.forgetLevelChunk pos]) = (loaded packets).erase pos := loaded_append packets _

@[simp]
theorem loaded_append_batch (packets : List ClientPacket) (selected : List EncodedChunk) :
    loaded (packets ++ State.batchPackets selected) = loaded packets ∪ (selected.map EncodedChunk.pos).toFinset := by
  unfold State.batchPackets
  rw [loaded_append, List.cons_append, List.foldl_cons, List.foldl_append, receive_chunks]
  rfl

/-! ## The invariant -/

/-- The encodings of a batch belong to different chunks. -/
def Sending.Sound : Sending → Prop
  | .idle => True
  | .prepared batch => (batch.chunks.map PreparedChunk.pos).Nodup ∧ ∀ e ∈ batch.reusableEncodedChunks, e.Built
  | .encoding _ encodedPrefix jobs =>
    (encodedPrefix.map EncodedChunk.pos ++ jobs.map fun job => job.1.pos).Nodup ∧ (∀ e ∈ encodedPrefix, e.Built) ∧
      ∀ job ∈ jobs, ∀ e ∈ job.2.join, e.Built ∧ e.pos = job.1.pos
  | .encoded _ encodedChunks => (encodedChunks.map EncodedChunk.pos).Nodup ∧ ∀ e ∈ encodedChunks, e.Built

namespace State

variable {s s' : State}

/-- The client's chunks are the sent ones and those marked again, and no more batches are out than may be. -/
structure Follows (s : State) : Prop where
  disjoint : Disjoint s.pendingChunks s.sentChunks
  loaded : s.closed = false → loaded s.queued = s.sentChunks ∪ s.remarked
  remarked : s.remarked ⊆ s.pendingChunks
  bound : s.unacknowledgedBatches ≤ s.maxUnacknowledgedBatches

structure Sound (s : State) : Prop where
  follows : s.Follows
  limit : s.maxUnacknowledgedBatches ≤ maxUnacknowledged
  room : s.sending ≠ .idle → s.unacknowledgedBatches < s.maxUnacknowledgedBatches
  deferred : ∀ e ∈ s.deferredEncodedChunks, e.Built
  sending : s.sending.Sound

/-- A chunk that is dropped was not marked pending again since it was sent. -/
def DropsUnmarked (s : State) (op : Op) : Prop := s.closed = false → ∀ pos ∈ op.dropped, pos ∉ s.remarked

instance (op : Op) : Decidable (s.DropsUnmarked op) := inferInstanceAs (Decidable (_ → _))

theorem Sound.new (world : World) (epoch : UInt32) : (State.new world epoch).Sound where
  follows := ⟨by simp [State.new], fun _ => by simp [State.new, ChunkSender.loaded], by simp [State.new], by simp [State.new]⟩
  limit := by simp [State.new, maxUnacknowledged]
  room h := absurd rfl h
  deferred e h := by cases h
  sending := trivial

theorem Sound.markChunkPendingToSend (h : s.Sound) (pos : ChunkPos) : (s.markChunkPendingToSend pos).Sound := by
  obtain ⟨hdisjoint, hloaded, hremarked, hbound⟩ := h.follows
  refine ⟨⟨?_, fun hopen => ?_, ?_, hbound⟩, h.limit, h.room, h.deferred, h.sending⟩
  · unfold State.markChunkPendingToSend
    dsimp only
    rw [Finset.disjoint_insert_left]
    exact ⟨Finset.notMem_erase pos _, hdisjoint.mono_right (Finset.erase_subset pos _)⟩
  · unfold State.markChunkPendingToSend
    dsimp only
    rw [hloaded hopen]
    split
    · rename_i hsent
      ext pos'
      by_cases heq : pos' = pos
      · simp [heq, hsent]
      · simp [heq]
    · rename_i hsent
      rw [Finset.erase_eq_of_notMem hsent]
  · unfold State.markChunkPendingToSend
    dsimp only
    split
    · exact Finset.insert_subset_insert pos hremarked
    · exact hremarked.trans (Finset.subset_insert pos _)

/-- The client forgets a chunk that was sent; one that was only pending it never had. -/
theorem loaded_dropChunk (h : s.Follows) {pos : ChunkPos} {accepted : Bool} (hopen : (s.dropChunk pos accepted).closed = false)
    (hunmarked : pos ∉ s.remarked) : loaded (s.dropChunk pos accepted).queued = (loaded s.queued).erase pos := by
  unfold State.dropChunk sendPacket at hopen ⊢
  dsimp only at hopen ⊢
  split at hopen
  · rename_i hsent
    cases accepted with
    | true =>
      rw [if_pos hsent]
      simp
    | false => cases hopen
  · rename_i hsent
    have hmissing : pos ∉ loaded s.queued := by
      rw [h.loaded hopen, Finset.mem_union]
      rintro (hmem | hmem)
      · exact hsent ⟨hmem, hopen⟩
      · exact hunmarked hmem
    rw [if_neg hsent, Finset.erase_eq_of_notMem hmissing]

theorem dropChunk_sets (s : State) (pos : ChunkPos) (accepted : Bool) :
    (s.dropChunk pos accepted).pendingChunks = s.pendingChunks.erase pos ∧
      (s.dropChunk pos accepted).sentChunks = s.sentChunks.erase pos ∧
      (s.dropChunk pos accepted).remarked = s.remarked.erase pos ∧
      (s.dropChunk pos accepted).unacknowledgedBatches = s.unacknowledgedBatches ∧
      (s.dropChunk pos accepted).maxUnacknowledgedBatches = s.maxUnacknowledgedBatches ∧
      (s.dropChunk pos accepted).deferredEncodedChunks = (s.deferredEncodedChunks.filter fun e => e.pos ≠ pos) ∧
      (s.dropChunk pos accepted).sending = s.sending ∧
      ((s.dropChunk pos accepted).closed = false → s.closed = false) := by
  unfold State.dropChunk sendPacket
  dsimp only
  split
  · rename_i hsent
    split
    · exact ⟨rfl, rfl, rfl, rfl, rfl, rfl, rfl, id⟩
    · exact ⟨rfl, rfl, rfl, rfl, rfl, rfl, rfl, fun _ => hsent.2⟩
  · exact ⟨rfl, rfl, rfl, rfl, rfl, rfl, rfl, id⟩

theorem Sound.dropChunk (h : s.Sound) {pos : ChunkPos} {accepted : Bool} (hunmarked : s.closed = false → pos ∉ s.remarked) :
    (s.dropChunk pos accepted).Sound := by
  obtain ⟨hpending, hsent, hremarked, hunack, hmax, hdeferred, hsending, hclosed⟩ := s.dropChunk_sets pos accepted
  constructor
  · constructor
    · rw [hpending, hsent]
      exact h.follows.disjoint.mono (Finset.erase_subset pos _) (Finset.erase_subset pos _)
    · intro hopen
      rw [loaded_dropChunk h.follows hopen (hunmarked (hclosed hopen)), h.follows.loaded (hclosed hopen), hsent, hremarked,
        Finset.erase_union_distrib]
    · rw [hremarked, hpending]
      exact Finset.erase_subset_erase pos h.follows.remarked
    · rw [hunack, hmax]
      exact h.follows.bound
  · rw [hmax]
    exact h.limit
  · rw [hsending, hunack, hmax]
    exact h.room
  · rw [hdeferred]
    exact fun e he => h.deferred e (List.mem_filter.mp he).1
  · rw [hsending]
    exact h.sending

theorem not_follows_dropChunk (h : s.Follows) {pos : ChunkPos} (accepted : Bool) (hopen : s.closed = false)
    (hremarked : pos ∈ s.remarked) : ¬(s.dropChunk pos accepted).Follows := by
  intro hfollows
  have hnotsent : pos ∉ s.sentChunks := Finset.disjoint_left.mp h.disjoint (h.remarked hremarked)
  have hdrop := s.dropChunk_sets pos accepted
  have hquiet : (s.dropChunk pos accepted).queued = s.queued ∧ (s.dropChunk pos accepted).closed = s.closed := by
    unfold State.dropChunk
    dsimp only
    rw [if_neg fun hsent => hnotsent hsent.1]
    exact ⟨rfl, rfl⟩
  have hmem : pos ∈ loaded (s.dropChunk pos accepted).queued := by
    rw [hquiet.1, h.loaded hopen]
    exact Finset.mem_union_right _ hremarked
  rw [hfollows.loaded (hquiet.2.trans hopen), hdrop.2.1, hdrop.2.2.1] at hmem
  simp at hmem

theorem Sound.onChunkBatchReceivedByClient (h : s.Sound) : s.onChunkBatchReceivedByClient.Sound := by
  unfold State.onChunkBatchReceivedByClient
  split
  · exact h
  · have hbound := h.follows.bound
    have hlimit := h.limit
    exact ⟨⟨h.follows.disjoint, h.follows.loaded, h.follows.remarked, show s.unacknowledgedBatches - 1 ≤ maxUnacknowledged by omega⟩,
      Nat.le_refl _, fun _ => show s.unacknowledgedBatches - 1 < maxUnacknowledged by omega, h.deferred, h.sending⟩

theorem Sound.prepareBatch (h : s.Sound) (playerChunkPos : ChunkPos) {pending : List ChunkPos} (hnodup : pending.Nodup)
    (maxBatchSize : Nat) : (s.prepareBatch playerChunkPos pending maxBatchSize).Sound := by
  unfold State.prepareBatch
  split
  · exact h
  · rename_i hroom
    have hchunks := collectCandidates_nodup s.world playerChunkPos hnodup maxBatchSize
    split
    · exact h
    · exact ⟨⟨h.follows.disjoint, h.follows.loaded, h.follows.remarked, h.follows.bound⟩, h.limit,
        fun _ => Nat.lt_of_not_le hroom, fun e he => (by cases he), hchunks, h.deferred⟩

theorem Sound.commitOf (h : s.Sound) {selected : List EncodedChunk} (hcurrent : s.Current selected)
    (hroom : s.unacknowledgedBatches < s.maxUnacknowledgedBatches) : { s.commitOf selected with sending := .idle }.Sound := by
  obtain ⟨hdisjoint, hloaded, hremarked, hbound⟩ := h.follows
  have hsubset : (selected.map EncodedChunk.pos).toFinset ⊆ s.pendingChunks := by
    intro pos hpos
    obtain ⟨e, he, rfl⟩ := List.mem_map.mp (List.mem_toFinset.mp hpos)
    exact hcurrent.pending e he
  refine ⟨⟨?_, fun hopen => ?_, Finset.sdiff_subset_sdiff hremarked (Finset.Subset.refl _), hroom⟩, h.limit,
    fun hidle => absurd rfl hidle, h.deferred, trivial⟩
  · unfold State.commitOf
    dsimp only
    rw [Finset.disjoint_union_right]
    exact ⟨hdisjoint.mono_left Finset.sdiff_subset, Finset.sdiff_disjoint⟩
  · unfold State.commitOf
    dsimp only
    rw [loaded_append_batch, hloaded hopen]
    ext pos
    simp only [Finset.mem_union, Finset.mem_sdiff]
    tauto

theorem Sound.commitBatch (h : s.Sound) {batch : PreparedBatch} {encodedChunks : List EncodedChunk} (wire : Wire)
    (outcome : SendOutcome) (hsending : s.sending = .encoded batch encodedChunks) :
    { s.commitBatch batch encodedChunks wire outcome with sending := .idle }.Sound := by
  have hbatch := h.sending
  rw [hsending] at hbatch
  obtain ⟨hnodup, hbuilt⟩ := hbatch
  have hroom := h.room (by rw [hsending]; exact Sending.noConfusion)
  obtain ⟨hdisjoint, hloaded, hremarked, hbound⟩ := h.follows
  have hidle : ∀ {P : Prop}, Sending.idle ≠ Sending.idle → P := fun hidle => absurd rfl hidle
  rcases s.commitBatch_cases batch wire outcome hnodup hbuilt with heq | heq | ⟨selected, hcurrent, heq | ⟨-, heq⟩⟩
  · rw [heq]
    exact ⟨⟨hdisjoint, hloaded, hremarked, hbound⟩, h.limit, hidle, h.deferred, trivial⟩
  · rw [heq]
    exact ⟨⟨hdisjoint, fun hopen => (by cases hopen), hremarked, hbound⟩, h.limit, hidle, h.deferred, trivial⟩
  · rw [heq]
    refine ⟨⟨hdisjoint, hloaded, hremarked, hbound⟩, h.limit, hidle, fun e he => ?_, trivial⟩
    rcases List.mem_append.mp he with he | he
    · exact h.deferred e he
    · exact hcurrent.built e he
  · rw [heq]
    exact h.commitOf hcurrent hroom

theorem Sound.proceed (h : s.Sound) {sending : Sending} (hsending : sending.Sound)
    (hidle : sending ≠ .idle → s.sending ≠ .idle) : { s with sending := sending }.Sound :=
  ⟨⟨h.follows.disjoint, h.follows.loaded, h.follows.remarked, h.follows.bound⟩, h.limit, fun hne => h.room (hidle hne),
    h.deferred, hsending⟩

theorem sound_encodeBatch {batch : PreparedBatch} (h : (Sending.prepared batch).Sound) (world : World) :
    let encodedPrefix := reusablePrefix world batch.chunks batch.reusableEncodedChunks
    (Sending.encoding batch encodedPrefix
      ((batch.chunks.drop encodedPrefix.length).map fun chunk => (chunk, none))).Sound := by
  obtain ⟨hnodup, hbuilt⟩ := h
  obtain ⟨hmem, hpositions⟩ := reusablePrefix_spec world batch.chunks batch.reusableEncodedChunks
  refine ⟨?_, fun e he => hbuilt e (hmem e he), fun job hjob e he => ?_⟩
  · rw [List.map_map]
    exact hpositions ▸ hnodup
  · obtain ⟨chunk, -, rfl⟩ := List.mem_map.mp hjob
    cases he

theorem sound_encodeChunk {batch : PreparedBatch} {encodedPrefix : List EncodedChunk}
    {jobs : List (PreparedChunk × Option (Option EncodedChunk))} (h : (Sending.encoding batch encodedPrefix jobs).Sound)
    {job : Nat} {prepared : PreparedChunk} (hjob : jobs[job]? = some (prepared, none)) (world : World)
    {cached : Option EncodedChunk} (hcached : ∀ e ∈ cached, e.Built) (encodedLength : Option Nat) :
    (Sending.encoding batch encodedPrefix
      (jobs.set job (prepared, some (ChunkSender.encodeChunk world prepared cached encodedLength)))).Sound := by
  obtain ⟨hnodup, hbuilt, hjobs⟩ := h
  obtain ⟨hlt, hget⟩ := List.getElem?_eq_some_iff.mp hjob
  have hpositions : (jobs.set job (prepared, some (ChunkSender.encodeChunk world prepared cached encodedLength))).map
      (fun job => job.1.pos) = jobs.map fun job => job.1.pos := by
    have hinside : job < (jobs.map fun job => job.1.pos).length := by rw [List.length_map]; exact hlt
    have hself := List.set_getElem_self hinside
    rw [List.getElem_map, hget] at hself
    rw [List.map_set]
    exact hself
  refine ⟨?_, hbuilt, fun job' hjob' e he => ?_⟩
  · rw [hpositions]
    exact hnodup
  · rcases List.mem_or_eq_of_mem_set hjob' with hold | rfl
    · exact hjobs job' hold e he
    · exact encodeChunk_spec hcached he

theorem sound_collectEncoded {batch : PreparedBatch} {encodedPrefix : List EncodedChunk}
    {jobs : List (PreparedChunk × Option (Option EncodedChunk))} (h : (Sending.encoding batch encodedPrefix jobs).Sound) :
    (Sending.encoded batch (encodedPrefix ++ jobs.filterMap fun job => job.2.join)).Sound := by
  obtain ⟨hnodup, hbuilt, hjobs⟩ := h
  constructor
  · rw [List.map_append]
    refine (List.Sublist.append (List.Sublist.refl _) ?_).nodup hnodup
    clear hnodup
    induction jobs with
    | nil => exact List.nil_sublist _
    | cons job jobs ih =>
      have hrest := ih fun job' hjob' => hjobs job' (List.mem_cons_of_mem _ hjob')
      rw [List.map_cons]
      cases hjoin : job.2.join with
      | none =>
        rw [List.filterMap_cons_none (by exact hjoin)]
        exact hrest.cons _
      | some e =>
        rw [List.filterMap_cons_some (by exact hjoin), List.map_cons, (hjobs job List.mem_cons_self e hjoin).2]
        exact hrest.cons_cons _
  · intro e he
    rcases List.mem_append.mp he with he | he
    · exact hbuilt e he
    · obtain ⟨job, hjob, hjoin⟩ := List.mem_filterMap.mp he
      exact (hjobs job hjob e hjoin).1

theorem Sound.step (h : s.Sound) {op : Op} (hunmarked : s.DropsUnmarked op) (hstep : Step s op s') : s'.Sound := by
  unfold Step exec at hstep
  cases op with
  | markChunkPendingToSend pos =>
    cases hstep
    exact h.markChunkPendingToSend pos
  | dropChunk pos accepted =>
    cases hstep
    exact h.dropChunk fun hopen => hunmarked hopen pos rfl
  | onChunkBatchReceivedByClient =>
    cases hstep
    exact h.onChunkBatchReceivedByClient
  | prepareBatch playerChunkPos pending maxBatchSize =>
    dsimp only at hstep
    split at hstep
    · split at hstep
      · rename_i hiterates
        cases hstep
        exact h.prepareBatch playerChunkPos hiterates.1 maxBatchSize
      · cases hstep
    · cases hstep
  | encodeBatch =>
    dsimp only at hstep
    split at hstep
    · rename_i batch hsending
      cases hstep
      exact h.proceed (sound_encodeBatch (hsending ▸ h.sending) s.world) fun _ => by simp [hsending]
    · cases hstep
  | encodeChunk job cached encodedLength =>
    dsimp only at hstep
    split at hstep
    · rename_i batch encodedPrefix jobs hsending
      split at hstep
      · rename_i prepared hjob
        split at hstep
        · rename_i hcached
          cases hstep
          exact h.proceed (sound_encodeChunk (hsending ▸ h.sending) hjob s.world hcached encodedLength)
            fun _ => by simp [hsending]
        · cases hstep
      · cases hstep
    · cases hstep
  | collectEncoded =>
    dsimp only at hstep
    split at hstep
    · rename_i batch encodedPrefix jobs hsending
      split at hstep
      · cases hstep
        exact h.proceed (sound_collectEncoded (hsending ▸ h.sending)) fun _ => by simp [hsending]
      · cases hstep
    · cases hstep
  | commitBatch wire outcome =>
    dsimp only at hstep
    split at hstep
    · rename_i batch encodedChunks hsending
      cases hstep
      exact h.commitBatch wire outcome hsending
    · cases hstep
  | abandonBatch =>
    dsimp only at hstep
    split at hstep
    · cases hstep
      exact h.proceed trivial fun hidle => absurd rfl hidle
    · cases hstep
  | changeWorld world =>
    cases hstep
    exact ⟨⟨h.follows.disjoint, h.follows.loaded, h.follows.remarked, h.follows.bound⟩, h.limit, h.room, h.deferred, h.sending⟩
  | bumpEpoch =>
    cases hstep
    exact ⟨⟨h.follows.disjoint, h.follows.loaded, h.follows.remarked, h.follows.bound⟩, h.limit, h.room, h.deferred, h.sending⟩
  | close =>
    cases hstep
    exact ⟨⟨h.follows.disjoint, fun hopen => (by cases hopen), h.follows.remarked, h.follows.bound⟩, h.limit, h.room, h.deferred,
      h.sending⟩

theorem Sound.run (h : s.Sound) {ops : List Op} (hrun : Run (Guarded DropsUnmarked Step) s ops s') : s'.Sound :=
  hrun.invariant_of_guarded h fun _ _ _ hs hunmarked hstep => hs.step hunmarked hstep

/-- A step keeps the client's chunks on the books exactly when it drops no chunk that was marked again. -/
theorem Sound.follows_iff (h : s.Sound) {op : Op} (hstep : Step s op s') : s'.Follows ↔ s.DropsUnmarked op := by
  constructor
  · intro hfollows hopen pos hdropped hremarked
    cases op with
    | dropChunk pos' accepted =>
      cases hdropped
      cases hstep
      exact not_follows_dropChunk h.follows accepted hopen hremarked hfollows
    | _ => cases hdropped
  · exact fun hunmarked => (h.step hunmarked hstep).follows

theorem Sound.commit_spec (h : s.Sound) {wire : Wire} {outcome : SendOutcome} (hstep : Step s (.commitBatch wire outcome) s') :
    s'.queued = s.queued ∧ s'.unacknowledgedBatches = s.unacknowledgedBatches ∨
      ∃ selected, s.Current selected ∧ s'.queued = s.queued ++ batchPackets selected ∧
        s'.unacknowledgedBatches = s.unacknowledgedBatches + 1 := by
  unfold Step exec at hstep
  dsimp only at hstep
  split at hstep
  · rename_i batch encodedChunks hsending
    cases hstep
    have hbatch := h.sending
    rw [hsending] at hbatch
    rcases s.commitBatch_cases batch wire outcome hbatch.1 hbatch.2 with heq | heq | ⟨selected, hcurrent, heq | ⟨-, heq⟩⟩
    · rw [heq]
      exact Or.inl ⟨rfl, rfl⟩
    · rw [heq]
      exact Or.inl ⟨rfl, rfl⟩
    · rw [heq]
      exact Or.inl ⟨rfl, rfl⟩
    · rw [heq]
      exact Or.inr ⟨selected, hcurrent, rfl, rfl⟩
  · cases hstep

end State

/-- As long as no chunk is dropped that was marked pending again after it had been sent: the client has loaded the sent
chunks and those marked again, every batch that goes out is made of different pending chunks as they are then and
counts them, a dropped chunk is forgotten, and the batches that are out stay within their bound. -/
theorem client_follows_sender (world : World) (epoch : UInt32) {ops : List State.Op} {s : State}
    (hrun : Run (Guarded State.DropsUnmarked State.Step) (State.new world epoch) ops s) :
    s.Follows ∧ (∀ op s', State.Step s op s' → (s'.Follows ↔ s.DropsUnmarked op)) ∧
      (∀ wire outcome s', State.Step s (.commitBatch wire outcome) s' →
        s'.queued = s.queued ∧ s'.unacknowledgedBatches = s.unacknowledgedBatches ∨
          ∃ selected, s.Current selected ∧ s'.queued = s.queued ++ State.batchPackets selected ∧
            s'.unacknowledgedBatches = s.unacknowledgedBatches + 1) ∧
      (∀ pos accepted s', State.Step s (.dropChunk pos accepted) s' → s.DropsUnmarked (.dropChunk pos accepted) →
        s'.closed = false → pos ∉ loaded s'.queued) ∧
      ∀ s', State.Step s .onChunkBatchReceivedByClient s' →
        s' = s ∨ s'.unacknowledgedBatches + 1 = s.unacknowledgedBatches := by
  have hsound := (State.Sound.new world epoch).run hrun
  refine ⟨hsound.follows, fun op s' hstep => hsound.follows_iff hstep, fun wire outcome s' hstep => hsound.commit_spec hstep,
    fun pos accepted s' hstep hunmarked hopen => ?_, fun s' hstep => ?_⟩
  · cases hstep
    have hclosed := (s.dropChunk_sets pos accepted).2.2.2.2.2.2.2 hopen
    rw [State.loaded_dropChunk hsound.follows hopen (hunmarked hclosed pos rfl)]
    exact Finset.notMem_erase pos _
  · cases hstep
    unfold State.onChunkBatchReceivedByClient
    split
    · exact Or.inl rfl
    · rename_i hsome
      exact Or.inr (Nat.succ_pred_eq_of_ne_zero hsome)

/-! ## A chunk that is marked again -/

/-- A world of one ready chunk. -/
def oneChunk : World := ⟨fun pos => if pos = ⟨0, 0⟩ then some 0 else none, fun _ => ⟨true, ⟨1⟩, 5⟩⟩

/-- The chunk is marked, prepared, encoded and sent. -/
def sendOne : List State.Op :=
  [.markChunkPendingToSend ⟨0, 0⟩, .prepareBatch ⟨0, 0⟩ [⟨0, 0⟩] 9, .encodeBatch, .encodeChunk 0 none (some 100),
    .collectEncoded, .commitBatch ⟨some 2, fun _ => some 3, 1000⟩ .ok]

/-- The client forgets the chunk that was sent and dropped. -/
theorem sent_chunk_is_forgotten : ∃ s s', Run (Guarded State.DropsUnmarked State.Step) (State.new oneChunk 0) sendOne s ∧
    loaded s.queued = {⟨0, 0⟩} ∧ State.Step s (.dropChunk ⟨0, 0⟩ true) s' ∧ ⟨0, 0⟩ ∉ loaded s'.queued := by
  have hrun : (sendOne.foldlM (fun (s : State) op => if s.DropsUnmarked op then s.exec op else none)
      (State.new oneChunk 0)).map (fun s => (loaded s.queued, s.closed, s.remarked)) = some ({⟨0, 0⟩}, false, ∅) := by decide +kernel
  obtain ⟨s, hs, hend⟩ := Option.map_eq_some_iff.mp hrun
  simp only [Prod.mk.injEq] at hend
  obtain ⟨hloaded, hopen, hremarked⟩ := hend
  have hrun : Run (Guarded State.DropsUnmarked State.Step) (State.new oneChunk 0) sendOne s := by
    refine .of_foldlM (fun s op s' hgo => ?_) hs
    split at hgo
    · rename_i hunmarked
      exact ⟨hunmarked, hgo⟩
    · cases hgo
  refine ⟨s, _, hrun, hloaded, rfl, (client_follows_sender oneChunk 0 hrun).2.2.2.1 _ _ _ rfl ?_ ?_⟩
  · simp [State.DropsUnmarked, hremarked]
  · unfold State.dropChunk State.sendPacket
    dsimp only
    split
    · exact hopen
    · exact hopen

/-- The chunk is marked again and dropped: the client keeps it. -/
theorem remarked_chunk_stays : ¬∀ (world : World) (epoch : UInt32) (ops : List State.Op) (s : State),
    Run State.Step (State.new world epoch) ops s → s.closed = false →
      ∀ pos ∈ loaded s.queued, pos ∈ s.sentChunks ∨ pos ∈ s.pendingChunks := by
  intro hclaim
  let ops : List State.Op := sendOne ++ [.markChunkPendingToSend ⟨0, 0⟩, .dropChunk ⟨0, 0⟩ true]
  have hrun : (ops.foldlM State.exec (State.new oneChunk 0)).map (fun s => (loaded s.queued, s.closed, s.sentChunks, s.pendingChunks)) =
      some ({⟨0, 0⟩}, false, ∅, ∅) := by decide +kernel
  obtain ⟨s, hs, hend⟩ := Option.map_eq_some_iff.mp hrun
  simp only [Prod.mk.injEq] at hend
  obtain ⟨hloaded, hopen, hsent, hpending⟩ := hend
  have hbooks := hclaim oneChunk 0 ops s (.of_foldlM (fun _ _ _ hgo => hgo) hs) hopen ⟨0, 0⟩
    (by rw [hloaded]; exact Finset.mem_singleton_self _)
  simp [hsent, hpending] at hbooks

end Foton.ChunkSender
