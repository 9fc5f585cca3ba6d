import RkWhisper.DaemonStream

/-!
# Cutting a byte stream into chunks

However the bytes arrive, a flush that is not final has sent every full chunk and keeps less than
one; the final flush sends what is left, or fails on a last odd byte.
-/

namespace RkWhisper

theorem length_samplesOfPcm : ∀ pcm : Bytes, (samplesOfPcm pcm).length = pcm.length / 2
  | [] => rfl
  | [_] => by simp [samplesOfPcm]
  | low :: high :: rest => by
      simp only [samplesOfPcm, List.length_cons, length_samplesOfPcm rest]
      omega

theorem samplesOfPcm_append :
    ∀ front back : Bytes, front.length % 2 = 0 →
      samplesOfPcm (front ++ back) = samplesOfPcm front ++ samplesOfPcm back
  | [], _, _ => rfl
  | [_], _, heven => by simp at heven
  | low :: high :: rest, back, heven => by
      have hrest : rest.length % 2 = 0 := by
        simp only [List.length_cons] at heven
        omega
      simp only [List.cons_append, samplesOfPcm, samplesOfPcm_append rest back hrest]

theorem pcmS16leToF32_of_even {pcm : Bytes} (heven : pcm.length % 2 = 0) :
    pcmS16leToF32 pcm = .ok (samplesOfPcm pcm) :=
  if_neg (not_not_intro heven)

theorem pcmS16leToF32_of_odd {pcm : Bytes} (hodd : pcm.length % 2 = 1) :
    pcmS16leToF32 pcm = .error (.other "PCM byte count must be even for s16le audio") :=
  if_pos (by omega)

namespace LiveReader

/-- The chunk a block of bytes is sent as. -/
def chunkOf (block : Bytes) : LiveChunk := { samples := samplesOfPcm block }

/-- The reader has sent exactly the full chunks `full`. -/
structure Holds (reader : LiveReader) (full : List Bytes) : Prop where
  length : ∀ block ∈ full, block.length = chunkBytes
  sent : reader.chunkTx = full.map fun block => .ok (chunkOf block)
  stats : reader.stats = { totalSamples := 512 * full.length, totalWindows := full.length }

theorem samplesOfPcm_flatten {blocks : List Bytes}
    (hlength : ∀ block ∈ blocks, block.length = chunkBytes) :
    samplesOfPcm blocks.flatten = blocks.flatMap samplesOfPcm := by
  induction blocks with
  | nil => rfl
  | cons block blocks ih =>
      rw [List.forall_mem_cons] at hlength
      have heven : block.length % 2 = 0 := by rw [hlength.1, chunkBytes]
      rw [List.flatten_cons, samplesOfPcm_append _ _ heven, ih hlength.2, List.flatMap_cons]

theorem length_flatten {blocks : List Bytes}
    (hlength : ∀ block ∈ blocks, block.length = chunkBytes) :
    blocks.flatten.length = chunkBytes * blocks.length := by
  induction blocks with
  | nil => rfl
  | cons block blocks ih =>
      rw [List.forall_mem_cons] at hlength
      rw [List.flatten_cons, List.length_append, hlength.1, ih hlength.2, List.length_cons,
        Nat.mul_add, Nat.mul_one, Nat.add_comm]

/-- The loop sends the full chunks and keeps the rest, with no byte lost or moved. -/
theorem flushFullChunks_spec (reader : LiveReader) :
    ∀ full, reader.Holds full → ∃ full' flushed, reader.flushFullChunks = (.ok (), flushed) ∧
      flushed.Holds full' ∧ full'.flatten ++ flushed.pcm = full.flatten ++ reader.pcm ∧
      flushed.pcm.length < chunkBytes := by
  induction reader using flushFullChunks.induct with
  | case1 reader hlong error sent hsend =>
      have hlen : (reader.pcm.take chunkBytes).length % 2 = 0 := by
        rw [List.length_take, min_eq_left hlong, chunkBytes]
      simp [sendChunk, pcmS16leToF32_of_even hlen] at hsend
  | case2 reader hlong sent hsend ih =>
      intro full hfull
      have hlen : (reader.pcm.take chunkBytes).length = chunkBytes := by
        rw [List.length_take, min_eq_left hlong]
      have heven : (reader.pcm.take chunkBytes).length % 2 = 0 := by rw [hlen, chunkBytes]
      have hsent := hsend
      simp only [sendChunk, pcmS16leToF32_of_even heven, Prod.mk.injEq, true_and] at hsent
      have hholds : sent.Holds (full ++ [reader.pcm.take chunkBytes]) := by
        subst hsent
        refine ⟨?_, ?_, ?_⟩
        · simpa [or_imp, forall_and, hlen] using hfull.length
        · simp [hfull.sent, chunkOf]
        · have hcount : (samplesOfPcm (reader.pcm.take chunkBytes)).length = 512 := by
            rw [length_samplesOfPcm, hlen, chunkBytes]
          simp only [hfull.stats, hcount, List.length_append, List.length_singleton, Nat.mul_add]
      obtain ⟨full', flushed, hflush, hholds', hbytes, hshort⟩ := ih _ hholds
      refine ⟨full', flushed, ?_, hholds', ?_, hshort⟩
      · rw [flushFullChunks, dif_pos hlong]
        split
        · rename_i hsend'
          rw [hsend] at hsend'
          cases hsend'
        · rename_i hsend'
          rw [hsend] at hsend'
          cases hsend'
          exact hflush
      · have hpcm : sent.pcm = reader.pcm.drop chunkBytes := by rw [← hsent]
        rw [hbytes, hpcm, List.flatten_append, List.flatten_singleton, List.append_assoc,
          List.take_append_drop]
  | case3 reader hshort =>
      intro full hfull
      refine ⟨full, reader, ?_, hfull, rfl, by omega⟩
      rw [flushFullChunks, dif_neg hshort]

theorem flushPcmChunks_false (reader : LiveReader) {full : List Bytes} (hfull : reader.Holds full) :
    ∃ full' flushed, reader.flushPcmChunks false = (.ok (), flushed) ∧ flushed.Holds full' ∧
      full'.flatten ++ flushed.pcm = full.flatten ++ reader.pcm := by
  obtain ⟨full', flushed, hflush, hholds, hbytes, -⟩ := reader.flushFullChunks_spec full hfull
  exact ⟨full', flushed, by simp [flushPcmChunks, hflush], hholds, hbytes⟩

/-! ### The end of the stream -/

/-- What the reader of a stream of `total` has sent and returned. -/
structure Delivered (total : Bytes) (reader : LiveReader)
    (result : Except Error ReadOutcome) : Prop where
  of_even : total.length % 2 = 0 →
    result = .ok (.completed reader.stats) ∧
      ∃ chunks : List LiveChunk, reader.chunkTx = chunks.map .ok ∧
        pcmS16leToF32 total = .ok (chunks.flatMap (·.samples)) ∧
        (∀ chunk ∈ chunks.dropLast, chunk.samples.length = 512) ∧
        reader.stats.totalSamples = (chunks.flatMap (·.samples)).length ∧
        reader.stats.totalWindows = chunks.length
  of_odd : total.length % 2 = 1 →
    ∃ error, result = .error error ∧
      ∃ chunks : List LiveChunk, reader.chunkTx = chunks.map .ok ∧
        (∀ chunk ∈ chunks, chunk.samples.length = 512) ∧
        chunks.length = total.length / chunkBytes ∧
        chunks.flatMap (·.samples) =
          samplesOfPcm (total.take (chunkBytes * (total.length / chunkBytes)))

theorem length_chunkOf {block : Bytes} (h : block.length = chunkBytes) :
    (chunkOf block).samples.length = 512 := by
  rw [chunkOf, length_samplesOfPcm, h, chunkBytes]

theorem flatMap_chunkOf (full : List Bytes) :
    (full.map chunkOf).flatMap (·.samples) = full.flatMap samplesOfPcm := by
  induction full with
  | nil => rfl
  | cons block full ih => rw [List.map_cons, List.flatMap_cons, List.flatMap_cons, ih, chunkOf]

/-- The final flush delivers everything that came before it. -/
theorem flushPcmChunks_true (reader : LiveReader) {full : List Bytes} (hfull : reader.Holds full) :
    ∃ result flushed, reader.flushPcmChunks true = (result, flushed) ∧
      Delivered (full.flatten ++ reader.pcm) flushed
        (result.map fun _ => .completed flushed.stats) := by
  obtain ⟨full', flushed, hflush, hholds, hbytes, hshort⟩ := reader.flushFullChunks_spec full hfull
  have hlength := length_flatten hholds.length
  have hsamples := samplesOfPcm_flatten hholds.length
  have hfullLength : ∀ chunk ∈ full'.map chunkOf, chunk.samples.length = 512 := by
    simpa using fun block hmem => length_chunkOf (hholds.length block hmem)
  have hsent : flushed.chunkTx = (full'.map chunkOf).map .ok := by
    rw [hholds.sent, List.map_map]
    rfl
  have hflat := flatMap_chunkOf full'
  have htotal : (full'.flatten ++ flushed.pcm).length =
      chunkBytes * full'.length + flushed.pcm.length := by
    rw [List.length_append, hlength]
  have hfullEven : full'.flatten.length % 2 = 0 := by
    rw [hlength, chunkBytes]
    omega
  rw [← hbytes]
  simp only [flushPcmChunks, hflush, true_and]
  by_cases hempty : flushed.pcm = []
  · -- Nothing is left: every chunk sent was full.
    refine ⟨.ok (), flushed, by simp [hempty], fun heven => ?_, fun hodd => ?_⟩
    · refine ⟨rfl, full'.map chunkOf, hsent, ?_, fun chunk hmem =>
        hfullLength chunk (List.dropLast_subset _ hmem), ?_, ?_⟩
      · rw [pcmS16leToF32_of_even heven, hempty, List.append_nil, hsamples, hflat]
      · rw [hflat, ← hsamples, length_samplesOfPcm, hlength, hholds.stats, chunkBytes]
        simp only
        omega
      · rw [hholds.stats, List.length_map]
    · rw [htotal, hempty, List.length_nil, chunkBytes] at hodd
      omega
  · have hpos : 0 < flushed.pcm.length := List.length_pos_iff.mpr hempty
    simp only [hempty, ne_eq, not_false_eq_true, if_true]
    obtain heven | hodd := Nat.mod_two_eq_zero_or_one flushed.pcm.length
    · -- The rest is sent as a last, shorter chunk.
      simp only [sendChunk, pcmS16leToF32_of_even heven]
      refine ⟨_, _, rfl, fun htotalEven => ?_, fun hodd => ?_⟩
      · refine ⟨rfl, (full' ++ [flushed.pcm]).map chunkOf, ?_, ?_, ?_, ?_, ?_⟩
        · simp only [hsent, List.map_append]
          rfl
        · rw [pcmS16leToF32_of_even htotalEven, samplesOfPcm_append _ _ hfullEven, hsamples,
            flatMap_chunkOf, List.flatMap_append, List.flatMap_singleton]
        · rw [List.map_append, List.map_singleton, List.dropLast_concat]
          exact hfullLength
        · simp only [flatMap_chunkOf, List.flatMap_append, List.flatMap_singleton,
            List.length_append, ← hsamples, length_samplesOfPcm, hlength, hholds.stats, chunkBytes]
          omega
        · rw [hholds.stats, List.length_map, List.length_append, List.length_singleton]
      · rw [htotal, chunkBytes] at hodd
        omega
    · -- A last odd byte fails the flush after the full chunks.
      simp only [sendChunk, pcmS16leToF32_of_odd hodd]
      refine ⟨_, _, rfl, fun heven => ?_, fun _ => ?_⟩
      · rw [htotal, chunkBytes] at heven
        omega
      · have hcount : (full'.flatten ++ flushed.pcm).length / chunkBytes = full'.length := by
          rw [htotal, Nat.mul_add_div (by decide), Nat.div_eq_of_lt hshort, Nat.add_zero]
        refine ⟨_, rfl, full'.map chunkOf, hsent, hfullLength, ?_, ?_⟩
        · rw [hcount, List.length_map]
        · rw [hcount, ← hlength, List.take_left, hsamples, hflat]

end LiveReader

end RkWhisper
