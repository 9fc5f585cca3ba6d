import RkWhisper.Lib.Arithmetic
import RkWhisper.Lib.Binary32
import RkWhisper.Lib.BlockedLayout
import RkWhisper.Lib.CheckedArithmetic
import RkWhisper.Lib.CircularBuffer
import RkWhisper.Lib.Exceptions
import RkWhisper.Lib.Growth
import RkWhisper.Lib.LastUse
import RkWhisper.Lib.LawfulArithmetic
import RkWhisper.Lib.LittleEndian
import RkWhisper.Lib.ReorderBuffer
import RkWhisper.Lib.Resegmentation
import RkWhisper.Lib.Segmentation
import RkWhisper.Lib.SideBySide
import RkWhisper.Lib.SliceSort
import RkWhisper.Lib.Stride
import RkWhisper.Lib.Termination
import RkWhisper.Lib.TopK
import RkWhisper.Lib.Transition
import RkWhisper.Lib.Wire
import RkWhisper.Parameters
import RkWhisper.Protocol
import RkWhisper.SharedAudioRing
import RkWhisper.CheckedRing
import RkWhisper.DaemonStream
import RkWhisper.Vad
import RkWhisper.LiveJob
import RkWhisper.LiveRun
import RkWhisper.Scheduler
import RkWhisper.Windows
import RkWhisper.WorkerPool
import RkWhisper.ParallelTranscriber
import RkWhisper.Handshake
import RkWhisper.LiveSession
import RkWhisper.OneShot
import RkWhisper.CheckedLiveJob
import RkWhisper.Decoder
import RkWhisper.BeamSearch
import RkWhisper.Suppression
import RkWhisper.SeekLoop
import RkWhisper.Proof.Cursor
import RkWhisper.Proof.ProtocolRoundTrip
import RkWhisper.Proof.ForwardCompatible
import RkWhisper.Proof.ResponseStream
import RkWhisper.Proof.RingFifo
import RkWhisper.Proof.RingInterleaving
import RkWhisper.Proof.RingSafety
import RkWhisper.Proof.ChunkReader
import RkWhisper.Proof.AudioTransport
import RkWhisper.Proof.Segments
import RkWhisper.Proof.LiveJob
import RkWhisper.Proof.LiveStep
import RkWhisper.Proof.Timeline
import RkWhisper.Proof.FixedWindows
import RkWhisper.Proof.VadFeed
import RkWhisper.Proof.SpeechCoverage
import RkWhisper.Proof.SpeechEvents
import RkWhisper.Proof.Delivery
import RkWhisper.Proof.Ending
import RkWhisper.Proof.Progress
import RkWhisper.Proof.JobTracking
import RkWhisper.Proof.Scheduler
import RkWhisper.Proof.SchedulerRun
import RkWhisper.Proof.ReadyTokens
import RkWhisper.Proof.ModelScheduler
import RkWhisper.Proof.OrderedCollection
import RkWhisper.Proof.PoolCalls
import RkWhisper.Proof.Handshake
import RkWhisper.Proof.LiveSession
import RkWhisper.Proof.Cancellation
import RkWhisper.Proof.Undisturbed
import RkWhisper.Proof.OneShot
import RkWhisper.Proof.Deadlock
import RkWhisper.Proof.ClosedCircle
import RkWhisper.Proof.SpeechRuns
import RkWhisper.Proof.StableSegments
import RkWhisper.Proof.WindowCoverage
import RkWhisper.Proof.JobIndices
import RkWhisper.Proof.VadProgress
import RkWhisper.Proof.KvCache
import RkWhisper.Proof.BeamSearch
import RkWhisper.Proof.BeamTotal
import RkWhisper.Proof.BeamPruning
import RkWhisper.Proof.SeekLoop
import RkWhisper.Proof.CertainText
import RkWhisper.Proof.EncoderPacking
import RkWhisper.Proof.EndOfText
import RkWhisper.Polyphase
import RkWhisper.Proof.Polyphase
import RkWhisper.Lib.EditDistance
import RkWhisper.Lib.Tables
import RkWhisper.Proof.HandOver
import RkWhisper.WordErrors
import RkWhisper.Proof.WordErrors
import RkWhisper.Proof.GreedySuppression
import RkWhisper.Lib.MarkedRuns
import RkWhisper.Proof.Transcript
import RkWhisper.Proof.BlankSegments
import RkWhisper.Proof.SessionResponses
import RkWhisper.Proof.Backlog
import RkWhisper.Proof.SessionTermination
import RkWhisper.Proof.OneShotTermination
import RkWhisper.Proof.OneShotAudio
import RkWhisper.Proof.OneShotTranscript
import RkWhisper.Proof.PoolDebt
import RkWhisper.Proof.PoolProgress
import RkWhisper.Proof.PoolDrop
import RkWhisper.Proof.SessionJob
import RkWhisper.PoolVad
import RkWhisper.Proof.OfflineTranscript
import RkWhisper.Proof.PoolVad
import RkWhisper.Lib.Binary32Rounding
import RkWhisper.PcmSamples
import RkWhisper.Proof.PcmSamples
import RkWhisper.Proof.ResponseCompatible
import RkWhisper.Lib.RoundRobin
import RkWhisper.Proof.ConcurrentTranscripts
