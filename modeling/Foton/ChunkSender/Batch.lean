import Foton.ChunkSender.State
import Mathlib.Data.List.Nodup

/-!
# What a batch is made of

The chunks of a prepared batch have different positions, and so have their
encodings; the committed ones are current and frame their own count.
-/

namespace Foton.ChunkSender

/-! ## Preparing -/

theorem World.prepare_pos {world : World} {pos : ChunkPos} {prepared : PreparedChunk} (h : world.prepare pos = some prepared) :
    prepared.pos = pos := by
  unfold World.prepare at h
  obtain ⟨holder, -, h⟩ := Option.bind_eq_some_iff.mp h
  dsimp only at h
  split at h
  · cases h
    rfl
  · cases h

theorem takeReady_sublist (world : World) (room : Nat) (candidates : List ChunkPos) :
    ((takeReady world room candidates).map PreparedChunk.pos).Sublist candidates := by
  fun_induction takeReady world room candidates with
  | case1 => exact List.nil_sublist _
  | case2 => exact List.nil_sublist _
  | case3 room pos candidates prepared hprepared ih =>
    rw [List.map_cons, world.prepare_pos hprepared]
    exact ih.cons_cons pos
  | case4 room pos candidates hnone ih => exact ih.cons pos

theorem collectCandidates_nodup (world : World) (playerChunkPos : ChunkPos) {pending : List ChunkPos} (h : pending.Nodup)
    (maxBatchSize : Nat) : ((collectCandidates world playerChunkPos pending maxBatchSize).map PreparedChunk.pos).Nodup :=
  (takeReady_sublist _ _ _).nodup ((List.mergeSort_perm pending _).nodup_iff.mpr h)

/-! ## Encoding -/

theorem EncodedChunk.isCurrentFor_iff {e : EncodedChunk} {world : World} {prepared : PreparedChunk} :
    e.isCurrentFor world prepared = true ↔ e.pos = prepared.pos ∧ e.holder = prepared.holder ∧
      e.readiness = prepared.readiness ∧ prepared.readiness.isBlockTicking = true ∧
      (world.holders prepared.holder).tickingReadiness = prepared.readiness ∧
      (world.holders prepared.holder).packetContentRevision = e.contentRevision := by
  simp [EncodedChunk.isCurrentFor, and_assoc]

theorem reusablePrefix_spec (world : World) (chunks : List PreparedChunk) (reusable : List EncodedChunk) :
    (∀ e ∈ reusablePrefix world chunks reusable, e ∈ reusable) ∧
      (reusablePrefix world chunks reusable).map EncodedChunk.pos ++
        (chunks.drop (reusablePrefix world chunks reusable).length).map PreparedChunk.pos = chunks.map PreparedChunk.pos := by
  fun_induction reusablePrefix world chunks reusable with
  | case1 prepared chunks e reusable hcurrent ih =>
    refine ⟨List.forall_mem_cons.mpr ⟨List.mem_cons_self, fun e' he' => List.mem_cons_of_mem _ (ih.1 e' he')⟩, ?_⟩
    rw [List.map_cons, List.length_cons, List.drop_succ_cons, List.cons_append, ih.2, List.map_cons,
      (EncodedChunk.isCurrentFor_iff.mp hcurrent).1]
  | case2 => exact ⟨fun _ h => (by cases h), rfl⟩
  | case3 => exact ⟨fun _ h => (by cases h), rfl⟩

theorem encodeChunk_spec {world : World} {prepared : PreparedChunk} {cached : Option EncodedChunk} {encodedLength : Option Nat}
    {e : EncodedChunk} (hbuilt : ∀ e ∈ cached, e.Built) (h : encodeChunk world prepared cached encodedLength = some e) :
    e.Built ∧ e.pos = prepared.pos := by
  unfold encodeChunk at h
  split at h
  · rename_i cached' hcached
    cases h
    obtain ⟨hmem, hcurrent⟩ := Option.filter_eq_some_iff.mp hcached
    exact ⟨hbuilt e hmem, (EncodedChunk.isCurrentFor_iff.mp hcurrent).1⟩
  · dsimp only at h
    split at h
    · obtain ⟨n, -, rfl⟩ := Option.map_eq_some_iff.mp h
      exact ⟨rfl, rfl⟩
    · cases h

/-! ## Committing -/

/-- The chunks that a batch takes are the first ones, and the finished packet counts them. -/
theorem selectChunks_spec {wire : Wire} {chunks : List EncodedChunk} {encodedBytes : Nat} {packets packets' : List EncodedPacket}
    {selected selected' : List EncodedChunk} {finished finished' : Option EncodedPacket}
    (h : selectChunks wire chunks encodedBytes packets selected finished = .packets packets' selected' finished') :
    ∃ taken, taken.Sublist chunks ∧ packets' = packets ++ taken.map EncodedChunk.packet ∧ selected' = selected ++ taken ∧
      (taken = [] ∧ finished' = finished ∨
        taken ≠ [] ∧ finished'.map EncodedPacket.packet = some (.chunkBatchFinished selected'.length)) := by
  have hstop : Selection.packets packets selected finished = .packets packets' selected' finished' →
      ∃ taken, taken.Sublist chunks ∧ packets' = packets ++ taken.map EncodedChunk.packet ∧ selected' = selected ++ taken ∧
        (taken = [] ∧ finished' = finished ∨
          taken ≠ [] ∧ finished'.map EncodedPacket.packet = some (.chunkBatchFinished selected'.length)) := by
    intro heq
    cases heq
    exact ⟨[], List.nil_sublist _, by simp, by simp, Or.inl ⟨rfl, rfl⟩⟩
  induction chunks generalizing encodedBytes packets selected finished with
  | nil => exact hstop h
  | cons e chunks ih =>
    unfold selectChunks at h
    dsimp only at h
    split at h
    · exact hstop h
    · split at h
      · cases h
      · rename_i finishedLength hfinished
        split at h
        · exact hstop h
        · split at h
          · exact hstop h
          · have hrest := ih h (by
              intro heq
              cases heq
              exact ⟨[], List.nil_sublist _, by simp, by simp, Or.inl ⟨rfl, rfl⟩⟩)
            obtain ⟨taken, hsublist, rfl, rfl, hend⟩ := hrest
            refine ⟨e :: taken, hsublist.cons_cons e, by simp, by simp, Or.inr ⟨List.cons_ne_nil _ _, ?_⟩⟩
            rcases hend with ⟨rfl, rfl⟩ | ⟨-, hcount⟩
            · simp
            · exact hcount

namespace State

variable {s : State}

/-- A batch that may go out: different pending chunks as they are now. -/
structure Current (s : State) (selected : List EncodedChunk) : Prop where
  nonempty : selected ≠ []
  distinct : (selected.map EncodedChunk.pos).Nodup
  pending : ∀ e ∈ selected, e.pos ∈ s.pendingChunks
  built : ∀ e ∈ selected, e.Built
  revision : ∀ e ∈ selected, (s.world.holders e.holder).packetContentRevision = e.contentRevision
  readiness : ∀ e ∈ selected, (s.world.holders e.holder).tickingReadiness = e.readiness ∧ e.readiness.isBlockTicking = true

def batchPackets (selected : List EncodedChunk) : List ClientPacket :=
  .chunkBatchStart :: selected.map (fun e => .levelChunkWithLight e.pos e.holder e.contentRevision) ++
    [.chunkBatchFinished selected.length]

/-- The packets of `selected` are queued. -/
def commitOf (s : State) (selected : List EncodedChunk) : State :=
  { s with
    queued := s.queued ++ batchPackets selected
    unacknowledgedBatches := s.unacknowledgedBatches + 1
    pendingChunks := s.pendingChunks \ (selected.map EncodedChunk.pos).toFinset
    sentChunks := s.sentChunks ∪ (selected.map EncodedChunk.pos).toFinset
    remarked := s.remarked \ (selected.map EncodedChunk.pos).toFinset }

theorem validChunks_spec {batch : PreparedBatch} {encodedChunks : List EncodedChunk} {e : EncodedChunk}
    (h : e ∈ s.validChunks batch encodedChunks) : e ∈ encodedChunks ∧ e.pos ∈ s.pendingChunks ∧
      (s.world.holders e.holder).packetContentRevision = e.contentRevision ∧
      (s.world.holders e.holder).tickingReadiness = e.readiness ∧ e.readiness.isBlockTicking = true := by
  obtain ⟨hmem, hvalid⟩ := List.mem_filter.mp h
  rw [Bool.and_eq_true, decide_eq_true_eq] at hvalid
  obtain ⟨hpending, hcurrent⟩ := hvalid
  split at hcurrent
  · rename_i prepared hfind
    obtain ⟨-, hholder, hreadiness, hticking, hnow, hrevision⟩ := EncodedChunk.isCurrentFor_iff.mp hcurrent
    rw [hholder, hreadiness]
    exact ⟨hmem, hpending, hrevision, hnow, hticking⟩
  · cases hcurrent

theorem map_zip_packets (selected : List EncodedChunk) (finished : List EncodedPacket) :
    ((selected.zip (selected.map EncodedChunk.packet ++ finished)).map fun (e, packet) =>
      ({ e with packet := packet } : EncodedChunk)) = selected := by
  induction selected with
  | nil => rfl
  | cons e selected ih => simp [ih]

/-- A commit does nothing, closes the connection, keeps its encodings for later, or queues a whole batch. -/
theorem commitBatch_cases (s : State) (batch : PreparedBatch) {encodedChunks : List EncodedChunk} (wire : Wire)
    (outcome : SendOutcome) (hnodup : (encodedChunks.map EncodedChunk.pos).Nodup) (hbuilt : ∀ e ∈ encodedChunks, e.Built) :
    s.commitBatch batch encodedChunks wire outcome = s ∨
      s.commitBatch batch encodedChunks wire outcome = { s with closed := true } ∨
      ∃ selected, s.Current selected ∧
        (s.commitBatch batch encodedChunks wire outcome =
            { s with deferredEncodedChunks := s.deferredEncodedChunks ++ selected } ∨
          s.closed = false ∧ s.commitBatch batch encodedChunks wire outcome = s.commitOf selected) := by
  unfold commitBatch
  split
  · exact Or.inl rfl
  · split
    · exact Or.inl rfl
    · split
      · exact Or.inr (Or.inl rfl)
      · rename_i startLength hstart
        split
        · exact Or.inr (Or.inl rfl)
        · exact Or.inl rfl
        · rename_i packets selected finished hselect
          obtain ⟨_, hsublist, rfl, rfl, hend⟩ := selectChunks_spec hselect
          obtain ⟨hne, hfinished⟩ : selected ≠ [] ∧ finished.packet = .chunkBatchFinished selected.length := by
            rcases hend with ⟨-, hnone⟩ | ⟨hne, hfinished⟩
            · cases hnone
            · exact ⟨hne, Option.some.inj hfinished⟩
          have hvalid : ∀ e ∈ selected, _ := fun e he => validChunks_spec (hsublist.subset he)
          have hcurrent : s.Current selected := {
            nonempty := hne
            distinct := ((hsublist.trans List.filter_sublist).map _).nodup hnodup
            pending := fun e he => (hvalid e he).2.1
            built := fun e he => hbuilt e (hvalid e he).1
            revision := fun e he => (hvalid e he).2.2.1
            readiness := fun e he => (hvalid e he).2.2.2 }
          unfold sendBatch
          split
          · exact Or.inr (Or.inl rfl)
          · refine Or.inr (Or.inr ⟨selected, hcurrent, Or.inl ?_⟩)
            dsimp only
            rw [List.cons_append, List.cons_append, List.tail_cons, List.nil_append, map_zip_packets]
          · rename_i hok
            refine Or.inr (Or.inr ⟨selected, hcurrent, Or.inr ⟨?_, ?_⟩⟩)
            · cases hclosed : s.closed with
              | false => rfl
              | true =>
                rw [hclosed] at hok
                cases hok
            · have hpackets : (selected.map EncodedChunk.packet).map EncodedPacket.packet =
                  selected.map fun e => ClientPacket.levelChunkWithLight e.pos e.holder e.contentRevision := by
                rw [List.map_map]
                exact List.map_congr_left fun e he => hcurrent.built e he
              unfold commitOf batchPackets
              simp [hpackets, hfinished]

end State

end Foton.ChunkSender
