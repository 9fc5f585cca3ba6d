import RkWhisper.Proof.BlankSegments
import RkWhisper.Proof.OneShotTranscript
import RkWhisper.Proof.OrderedCollection
import RkWhisper.WindowTranscriber

/-!
# The daemon's transcript is the offline one

Without VAD the daemon cuts the stream where the offline driver cuts the recording, and a window's
samples and its start are all that the workers look at. So a client that streams its audio to the
daemon gets the segments that it would get offline.
-/

namespace RkWhisper

open Transition OneShotPhase

/-- What the model makes of a job. -/
def WhisperJob.transcribed (model : WindowModel) (job : WhisperJob) :
    Except Error WindowTranscription :=
  transcribeWindowSamples model job.samples job.windowIndex job.absoluteStartSec job.startSample
    job.endSample job.options

/-- A model looks at the bounds of a window for its length only. -/
def WindowModel.LooksAtLength (model : WindowModel) : Prop :=
  ∀ options wave windowIndex absoluteStartSec windowStartSample windowEndSample,
    model options wave windowIndex absoluteStartSec windowStartSample windowEndSample =
      model options wave windowIndex absoluteStartSec 0 (windowEndSample - windowStartSample)

theorem WindowTranscriber.looksAtLength {spec : WhisperSpec} {mel encoded encKv σ : Type}
    (transcriber : WindowTranscriber spec mel encoded encKv σ) (onPanic : Panic → Error) :
    (transcriber.windowModel onPanic).LooksAtLength := by
  intro options wave windowIndex absoluteStartSec windowStartSample windowEndSample
  simp only [windowModel, transcribeWindowSamples, allOutputTokens, Nat.sub_zero]

variable {model : WindowModel} {options : TranscribeOptions} {audio : List F32}
  {window : AudioWindow}

theorem AudioWindow.length_samples (hinside : Inside audio.length window.startSample window.endSample) :
    (window.samples audio).length = window.endSample - window.startSample := by
  rw [AudioWindow.samples, List.length_drop, List.length_take, min_eq_left hinside.2]

/-- The job of the daemon and the window of the offline driver. -/
theorem transcribed_liveJob (hmodel : model.LooksAtLength) (jobId : Nat)
    (hinside : Inside audio.length window.startSample window.endSample) :
    (window.liveJob jobId audio options).transcribed model = made model options audio window := by
  have hlength := AudioWindow.length_samples hinside
  simp only [WhisperJob.transcribed, AudioWindow.liveJob, made, transcribeAudioWindow,
    transcribeWindowSamples, hlength]
  rw [hmodel _ _ _ _ window.startSample]

/-- The answers to the windows, one after the other. -/
theorem segmentsOfAnswers_of_forall₂ {answers results : List WindowTranscription}
    {windows : List AudioWindow} (hnumbered : Numbered windows)
    (hmade : List.Forall₂ (fun window result => made model options audio window = .ok result)
      windows results)
    (hanswers : ∀ window ∈ windows, ∃ result ∈ answerTo answers window.index,
      made model options audio window = .ok result) :
    segmentsOfAnswers answers windows.length = results.flatMap WindowTranscription.responses := by
  rw [segmentsOfAnswers, hmade.length_eq, ← flatMap_getElem? WindowTranscription.responses]
  refine List.flatMap_congr fun i hi => ?_
  have hwindow : i < windows.length := hmade.length_eq ▸ List.mem_range.mp hi
  have hresult := List.mem_range.mp hi
  obtain ⟨answer, hanswer, hsame⟩ := hanswers windows[i] (List.getElem_mem hwindow)
  have hindex := hnumbered.index (List.getElem?_eq_getElem hwindow)
  have hget : made model options audio windows[i] = .ok results[i] := hmade.get hwindow hresult
  rw [hindex] at hanswer
  rw [List.getElem?_eq_getElem hresult, hanswer, Except.ok.inj (hget.symm.trans hsame)]

namespace LiveRun

variable {maxInFlight : Nat} {run : LiveRun}

/-- The answers are what the model makes of the jobs dispatched. -/
def ModelAnswers (model : WindowModel) (run : LiveRun) : Prop :=
  ∀ answer ∈ run.answers, ∃ window ∈ run.dispatched,
    window.whisperJob.transcribed model = .ok answer

/-- Every window of a complete job is answered with what the offline driver makes of it. -/
theorem made_of_complete {jobId : Nat} {header : RequestHeader} {chunkRx : ChunkReceiver}
    {events : List Event} (hmodel : model.LooksAtLength)
    (hrun : Run (Step maxInFlight) (start jobId header chunkRx false) events run)
    (hsends : ∀ event ∈ events, Sends event) (hcomplete : run.job.isComplete = true)
    (hawaited : run.awaited = []) (hanswered : run.ModelAnswers model) :
    ∀ window ∈ fixedAudioWindows run.accepted.length,
      ∃ result ∈ answerTo run.answers window.index,
        made model (.ofHeader header) run.accepted window = .ok result := by
  intro window hwindow
  have hdelivery : Delivery maxInFlight run := .of_run hrun
  have hdispatched := dispatched_of_complete hrun hsends hcomplete
  have hinside := @inside_transcriptionWindows run.accepted.length [] List.Pairwise.nil
    (List.forall_mem_nil _)
  -- The index has been given out, and nothing is awaited.
  have hjob : window.liveJob run.job.jobId run.accepted (.ofHeader header) ∈
      run.dispatched.map DispatchedWindow.whisperJob := by
    rw [hdispatched]
    exact List.mem_map_of_mem hwindow
  have hindex : window.index ∈ run.answers.map WindowTranscription.windowIndex := by
    have hperm := hdelivery.indices
    rw [hawaited, List.nil_append, ← hdelivery.dispatched] at hperm
    obtain ⟨sent, hsent, hsame⟩ := List.mem_map.mp hjob
    exact hperm.mem_iff.mpr (List.mem_map.mpr ⟨sent, hsent, congrArg WhisperJob.windowIndex hsame⟩)
  obtain ⟨answer, hanswer⟩ := Option.isSome_iff_exists.mp (isSome_answerTo.mpr hindex)
  refine ⟨answer, hanswer, ?_⟩
  obtain ⟨sent, hsent, htranscribed⟩ := hanswered answer (List.mem_of_find?_eq_some hanswer)
  have hmem := List.mem_map_of_mem (f := DispatchedWindow.whisperJob) hsent
  rw [hdispatched] at hmem
  obtain ⟨other, hother, hsame⟩ := List.mem_map.mp hmem
  rw [← hsame, transcribed_liveJob hmodel _ (hinside other hother)] at htranscribed
  -- The answer bears the index of its window, and no two windows have the same.
  obtain ⟨i, hi⟩ := List.mem_iff_getElem?.mp hwindow
  obtain ⟨j, hj⟩ := List.mem_iff_getElem?.mp hother
  have hnumbered := numbered_fixedAudioWindows run.accepted.length
  have hanswerIndex : answer.windowIndex = window.index :=
    of_decide_eq_true (List.find?_eq_some_iff_append.mp hanswer).1
  rw [windowIndex_of_made htranscribed, hnumbered.index hi, hnumbered.index hj] at hanswerIndex
  rw [hanswerIndex] at hj
  obtain rfl := Option.some.inj (hj.symm.trans hi)
  exact htranscribed

/-- **The segments of a complete job are those of the offline driver.** -/
theorem transcribeAudio_of_complete {jobId : Nat} {header : RequestHeader} {chunkRx : ChunkReceiver}
    {events : List Event} (hmodel : model.LooksAtLength)
    (hrun : Run (Step maxInFlight) (start jobId header chunkRx false) events run)
    (hsends : ∀ event ∈ events, Sends event) (hcomplete : run.job.isComplete = true)
    (hawaited : run.awaited = []) (hanswered : run.ModelAnswers model) :
    ∃ offline, transcribeAudioWithOptions model run.accepted [] (.ofHeader header) =
        .ok offline ∧
      segmentsOfAnswers run.answers run.dispatched.length =
        offline.segments.map fun segment => .segment segment.text segment.startSec segment.endSec := by
  have hmade := made_of_complete hmodel hrun hsends hcomplete hawaited hanswered
  have hcases := transcribeAudioWithOptions_cases model run.accepted [] (.ofHeader header)
  rw [transcriptionWindows_nil] at hcases
  obtain ⟨results, hresults, hoffline⟩ | ⟨error, -, window, hwindow, herror⟩ := hcases
  · refine ⟨_, hoffline, ?_⟩
    have hlength := congrArg List.length (dispatched_of_complete hrun hsends hcomplete)
    rw [List.length_map, List.length_map] at hlength
    rw [hlength, segmentsOfAnswers_of_forall₂ (numbered_fixedAudioWindows _) hresults hmade]
    exact (List.map_flatMap ..).symm
  · obtain ⟨result, -, hresult⟩ := hmade window hwindow
    rw [hresult] at herror
    cases herror

end LiveRun

/-- The client is not told the tokens. -/
def TranscriptSegment.toSync (segment : TranscriptSegment) : Sync.TranscriptSegment :=
  { startSec := segment.startSec, endSec := segment.endSec, text := segment.text }

namespace OneShot

variable {config : SessionConfig} {c : OneShot} {capacity : UInt64} {memory : Nat → UInt8}
  {jobId : Nat} {header : RequestHeader} {pcm : Bytes} {events : List Event}

/-- The job behind the client, whose windows are all sent to workers. -/
theorem job_run {vadEnabled : Bool}
    (hrun : Run (Step config) (start capacity memory jobId header vadEnabled pcm) events c)
    (hsends : ∀ event ∈ events, event.Sends) :
    ∃ more, Run (LiveRun.Step config.maxInFlight) (.start jobId header {} vadEnabled) more
      c.session.run ∧ ∀ event ∈ more, LiveRun.Sends event := by
  obtain ⟨sessionEvents, hsession, hevents⟩ := session_run hrun
  obtain ⟨more, hmore, hcauses⟩ := LiveSession.moves_of_run hsession
  refine ⟨more, hmore, ?_⟩
  rintro event hmem rfl
  obtain ⟨cause, hcause, hcaused⟩ := hcauses _ hmem
  obtain ⟨action, rfl⟩ | hdaemon := hevents cause hcause
  · exact hcaused
  · cases cause with
    | scheduler event =>
        cases event with
        | branch event => exact hsends _ hdaemon (by rw [← hcaused.1])
        | _ => exact hcaused
    | _ => exact hcaused

/-- **The daemon's transcript is the offline one.** Without VAD, a client that streams its audio to
the daemon gets, in whatever order everyone takes steps, the segments that the offline driver makes of
the whole recording. -/
theorem transcribeAll_eq_offline {spec : WhisperSpec} {mel encoded encKv σ : Type}
    (transcriber : WindowTranscriber spec mel encoded encKv σ) (onPanic : Panic → Error)
    (hcapacity : 0 < capacity) (hmax : pcm.length < 2 ^ 64)
    (hrun : Run (Step config) (start capacity memory jobId header false pcm) events c)
    (hsends : ∀ event ∈ events, event.Sends)
    (hanswered : c.session.run.ModelAnswers (transcriber.windowModel onPanic))
    {transcription : Sync.Transcription} (hok : c.client = .returned (.ok transcription)) :
    ∃ offline, transcribeAudioWithOptions (transcriber.windowModel onPanic) (samplesOfPcm pcm) []
        (.ofHeader header) = .ok offline ∧
      transcription.segments = offline.segments.map TranscriptSegment.toSync ∧
      transcription.text = trim (fullText (offline.segments.map TranscriptSegment.toSync)) := by
  obtain ⟨read, unread, hhears⟩ := hears_of_run hcapacity hmax hrun
  have htranscribed := hhears.transcribed hcapacity hmax hrun hok
  obtain ⟨more, hmore, hjobSends⟩ := job_run hrun hsends
  obtain ⟨offline, hoffline, hsegments⟩ := LiveRun.transcribeAudio_of_complete
    (transcriber.looksAtLength onPanic) hmore hjobSends htranscribed.complete htranscribed.awaited
    hanswered
  rw [htranscribed.accepted] at hoffline
  have hsame : transcription.segments = offline.segments.map TranscriptSegment.toSync := by
    rw [htranscribed.segments, hsegments, List.filterMap_map, List.filterMap_filterMap,
      ← List.filterMap_eq_map]
    rfl
  refine ⟨offline, hoffline, hsame, ?_⟩
  rw [← hsame]
  exact htranscribed.text

def fourWords : WhisperSpec where
  encSeq := 1
  nLayers := 1
  nHeads := 1
  dHead := 1
  tCache := 20
  vocab := 4
  tokenEot := 0

/-- It says a letter for every token. -/
def wordTranscriber : WindowTranscriber fourWords Unit Unit Unit Unit where
  arithmetic := orderOnly
  sorter := SliceSort.Sorter.stable
  logMelSpectrogram _ := .ok ()
  encode _ := .ok ()
  compute _ := .ok ()
  setEncKv _ :=
    { step := fun _ _ => .ok ([⟨0⟩, ⟨0⟩, ⟨1⟩, ⟨0⟩], ())
      length_step := by
        rintro _ _ _ _ ⟨⟩
        rfl }
  resetState := ()
  tokenToId _ := some 3
  decode tokens := some (String.ofList (tokens.map fun _ => 'a'))

/-- What it makes of a window does not depend on the samples. -/
theorem made_word (audio : List F32) :
    made (wordTranscriber.windowModel fun _ => .other "") (.ofHeader (wordHeader 1)) audio
        ⟨0, 0, 480000⟩ = .ok (wordAnswer 0 (samplesToSec 0)) ∧
      made (wordTranscriber.windowModel fun _ => .other "") (.ofHeader (wordHeader 1)) audio
        ⟨1, 480000, 480256⟩ = .ok (wordAnswer 1 (samplesToSec 480000)) := by
  have hfirst : made (wordTranscriber.windowModel fun _ => .other "") (.ofHeader (wordHeader 1)) []
      ⟨0, 0, 480000⟩ = .ok (wordAnswer 0 (samplesToSec 0)) := by
    decide +kernel
  have hsecond : made (wordTranscriber.windowModel fun _ => .other "") (.ofHeader (wordHeader 1)) []
      ⟨1, 480000, 480256⟩ = .ok (wordAnswer 1 (samplesToSec 480000)) := by
    decide +kernel
  exact ⟨hfirst, hsecond⟩

/-- The daemon's answers come in the wrong order, and the transcript is the offline one. -/
theorem transcribeAll_eq_offline_recording :
    ∃ (c : OneShot) (transcription : Sync.Transcription) (offline : Transcription),
      c.session.run.answers = lateAnswers ∧ c.client = .returned (.ok transcription) ∧
        transcribeAudioWithOptions (wordTranscriber.windowModel fun _ => .other "")
          (samplesOfPcm recording) [] (.ofHeader (wordHeader 1)) = .ok offline ∧
        transcription.segments = offline.segments.map TranscriptSegment.toSync := by
  obtain ⟨events, c, hrun, hfinal, hanswers, hsends⟩ := exists_recording
  obtain ⟨transcription, hclient, htranscribed⟩ := succeeded_of_final twoWindowConfig_positive
    (by decide) recording_even recording_fits (by decide) hrun (hanswers ▸ lateAnswers_fit) hfinal
  have hanswered : c.session.run.ModelAnswers (wordTranscriber.windowModel fun _ => .other "") := by
    obtain ⟨more, hmore, hjobSends⟩ := job_run hrun hsends
    have hjobs := LiveRun.dispatched_of_complete hmore hjobSends htranscribed.complete
    have hlength : c.session.run.accepted.length = 480256 := by
      rw [htranscribed.accepted, length_samplesOfPcm, length_recording]
      decide
    have hwindows : fixedAudioWindows c.session.run.accepted.length =
        [⟨0, 0, 480000⟩, ⟨1, 480000, 480256⟩] := by
      rw [hlength]
      decide
    obtain ⟨hfirst, hsecond⟩ := made_word c.session.run.accepted
    intro answer hmem
    obtain ⟨window, hwindow, hmade⟩ : ∃ window ∈ fixedAudioWindows c.session.run.accepted.length,
        made (wordTranscriber.windowModel fun _ => .other "") (.ofHeader (wordHeader 1))
          c.session.run.accepted window = .ok answer := by
      rw [hwindows]
      rw [hanswers] at hmem
      obtain rfl | rfl : answer = wordAnswer 1 (samplesToSec 480000) ∨
          answer = wordAnswer 0 (samplesToSec 0) := by simpa [lateAnswers] using hmem
      · exact ⟨_, List.mem_cons_of_mem _ (List.mem_singleton_self _), hsecond⟩
      · exact ⟨_, List.mem_cons_self, hfirst⟩
    have hinside := @inside_transcriptionWindows c.session.run.accepted.length [] List.Pairwise.nil
      (List.forall_mem_nil _) window hwindow
    have hjob := List.mem_map_of_mem (f := fun window : AudioWindow =>
      window.liveJob c.session.run.job.jobId c.session.run.accepted (.ofHeader (wordHeader 1))) hwindow
    rw [← hjobs] at hjob
    obtain ⟨sent, hsent, hsame⟩ := List.mem_map.mp hjob
    refine ⟨sent, hsent, ?_⟩
    rw [hsame, transcribed_liveJob (wordTranscriber.looksAtLength _) _ hinside]
    exact hmade
  obtain ⟨offline, hoffline, hsegments, -⟩ := transcribeAll_eq_offline wordTranscriber
    (fun _ => .other "") (by decide) recording_lt hrun hsends hanswered hclient
  exact ⟨c, transcription, offline, hanswers, hclient, hoffline, hsegments⟩

end OneShot

end RkWhisper
