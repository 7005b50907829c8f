import Vknn.Session.Resident
import Vknn.Decode.Speculative
import Vknn.Import.MovementRounds
import Vknn.Import.MatMulViewFold
import Vknn.Core.ConfigRoundTrip
import Vknn.Core.WinoCorrect
import Vknn.Import.OnnxValues
import Vknn.Import.ElementStorage
import Vknn.Import.BucketFusionEnds
import Vknn.Import.SharedQuantization
import Vknn.Import.LayoutAgreement
import Vknn.OnnxOptimizer.CheckedRuns
import Vknn.Vulkan.WeightSharing
import Vknn.Vulkan.WeightRelease
import Vknn.Vulkan.RecordedBarriers
import Vknn.Vulkan.RecordingCurrent
import Vknn.Session.FaithfulHandOff
import Vknn.Vulkan.LivenessPool
import Vknn.Core.StableSort
import Vknn.Core.SliceBounds
import Vknn.Session.LinkRanges
import Vknn.Core.JsonCursor
import Vknn.Import.DimExprGrammar
import Vknn.Import.OnnxPacked
import Vknn.Core.ModelReadBack
import Vknn.Core.QuantWeightsFaults
import Vknn.Vulkan.MatMulVec4
import Vknn.Core.MatMulAddress
import Vknn.Core.BoundaryPack
import Vknn.Core.CacheCodec
import Vknn.Import.RoundtripRuns
import Vknn.Import.PruneDeadInitializers
import Vknn.Import.InferUnsqueeze
import Vknn.Import.NormalizeConv1d
import Vknn.Import.InferSplit
import Vknn.Import.BiasCorrection
import Vknn.Import.ActivationRuns
import Vknn.Import.ExpandMatMulNBits
import Vknn.Import.LowerGroupedConv
import Vknn.Import.LowerRmsNorm
import Vknn.Cpu.TopK
import Vknn.Cpu.PRelu
import Vknn.Core.LowpGemm
import Vknn.Cpu.Pooling
import Vknn.Import.ExternalData
import Vknn.Cpu.Resize
import Vknn.Cpu.Einsum
import Vknn.Cpu.BroadcastWalk
import Vknn.Cpu.Int64Arithmetic
import Vknn.Import.FoldGatherSlice
import Vknn.Cpu.ParallelEnds
