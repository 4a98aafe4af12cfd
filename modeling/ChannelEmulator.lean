import ChannelEmulator.Framing.Run
import ChannelEmulator.Framing.Loop
import ChannelEmulator.Framing.Search
import ChannelEmulator.Framing.Zones
import ChannelEmulator.Framing.Loss
import ChannelEmulator.Coding.ShiftRegister
import ChannelEmulator.Spec.NetworkData
import ChannelEmulator.Spec.SyncMarker
import ChannelEmulator.Spec.Bitstream
import ChannelEmulator.Spec.EncapsulationPacket
import ChannelEmulator.Spec.Multiplexing
import ChannelEmulator.Spec.VirtualChannel
import ChannelEmulator.Spec.TransferFrame
import ChannelEmulator.Spec.AosFrame
import ChannelEmulator.Spec.AosVirtualChannel
import ChannelEmulator.Spec.FrameReception
import ChannelEmulator.Spec.PhaseAmbiguity
import ChannelEmulator.Spec.Encapsulation
import ChannelEmulator.Proof.MarkerPass
import ChannelEmulator.Proof.SyncMarker
import ChannelEmulator.Proof.Bitstream
import ChannelEmulator.Proof.EncapsulationPacket
import ChannelEmulator.Proof.MpduSender
import ChannelEmulator.Proof.MpduReceiver
import ChannelEmulator.Proof.Multiplexing
import ChannelEmulator.Proof.MpduLoss
import ChannelEmulator.Proof.FrameSender
import ChannelEmulator.Proof.SpacePacketSender
import ChannelEmulator.Proof.SpacePacketReceiver
import ChannelEmulator.Proof.SpacePackets
import ChannelEmulator.Proof.AosFrame
import ChannelEmulator.Proof.AosCounters
import ChannelEmulator.Proof.FrameGeneration
import ChannelEmulator.Proof.FrameReception
import ChannelEmulator.Proof.PacketExtraction
import ChannelEmulator.Proof.EncapsulationSender
import ChannelEmulator.Proof.EncapsulationReceiver
import ChannelEmulator.Proof.FrameHeader
import ChannelEmulator.Proof.EncapsulationService
import ChannelEmulator.Proof.MpduExtraction
import ChannelEmulator.Proof.PhaseAmbiguity
import ChannelEmulator.Proof.PhaseDetection
import ChannelEmulator.Proof.BitErrors
import ChannelEmulator.Proof.Encapsulation
import ChannelEmulator.Proof.FrameLoss
import ChannelEmulator.Proof.FrameMux
import ChannelEmulator.Proof.MuxPriorities
import ChannelEmulator.Proof.Demux
import ChannelEmulator.Proof.MarkerChange
import ChannelEmulator.Proof.Lcp
import ChannelEmulator.Proof.FrameZones
import ChannelEmulator.Proof.ReportInsertion
import ChannelEmulator.Proof.AosBuild
import ChannelEmulator.Proof.TmFrame
import ChannelEmulator.Proof.Dot1qFrame
import ChannelEmulator.Proof.EthernetFraming
import ChannelEmulator.Proof.HeaderCorrection
import ChannelEmulator.Proof.AosAccessService
import ChannelEmulator.Proof.UnitData
import ChannelEmulator.Proof.FillPattern
import ChannelEmulator.Graph.Walk
import ChannelEmulator.Graph.Mark
import ChannelEmulator.Sorting.BottomUp
import ChannelEmulator.Proof.DllRegistry
import ChannelEmulator.Proof.DllUnloading
import ChannelEmulator.Spec.Settings
import ChannelEmulator.Proof.SettingsCreation
import ChannelEmulator.Spec.PeriodicTransmitter
import ChannelEmulator.Proof.PeriodicTransmitter
import ChannelEmulator.Proof.LinkSearch
import ChannelEmulator.Proof.LinkOperations
import ChannelEmulator.Proof.LinkInvariants
import ChannelEmulator.Proof.LinkSettings
import ChannelEmulator.Proof.AccessChain
import ChannelEmulator.Proof.FrameBursts
import ChannelEmulator.Spec.HdlcFrame
import ChannelEmulator.Proof.HdlcChecksum
import ChannelEmulator.Proof.HdlcFrame
import ChannelEmulator.Proof.PppTransparency
import ChannelEmulator.Spec.IPv4Packet
import ChannelEmulator.Proof.IPv4Header
import ChannelEmulator.Proof.IPv4Fragments
import ChannelEmulator.Proof.IPv4Reassembly
import ChannelEmulator.Paths.Resolve
import ChannelEmulator.Spec.HttpServer
import ChannelEmulator.Proof.HttpCleanPath
import ChannelEmulator.Proof.HttpConfinement
import ChannelEmulator.Spec.ChannelMacros
import ChannelEmulator.Framing.Names
import ChannelEmulator.Proof.ChannelLinks
import ChannelEmulator.Proof.ChannelSegments
import ChannelEmulator.Proof.ChannelWiring
import ChannelEmulator.Spec.ReturnMacros
import ChannelEmulator.Proof.ReturnLengths
import ChannelEmulator.Proof.ReturnSegments
import ChannelEmulator.Proof.ReturnServices
import ChannelEmulator.Proof.ReturnLoops
import ChannelEmulator.Proof.ReturnStages
import ChannelEmulator.Proof.ReturnAgreement
import ChannelEmulator.Coding.RegisterField
import ChannelEmulator.Coding.ListPolynomial
import ChannelEmulator.Coding.Forney
import ChannelEmulator.Coding.Massey
import ChannelEmulator.Coding.Recurrence
import ChannelEmulator.Coding.Weights
import ChannelEmulator.Spec.ReedSolomon
import ChannelEmulator.Spec.RSDecode
import ChannelEmulator.Proof.SymbolField
import ChannelEmulator.Coding.BitPolynomial
import ChannelEmulator.Proof.SymbolTables
import ChannelEmulator.Proof.SymbolPolynomial
import ChannelEmulator.Proof.SymbolPolynomials
import ChannelEmulator.Proof.ErrataCorrection
import ChannelEmulator.Proof.ErrorLocation
import ChannelEmulator.Proof.WordCorrection
import ChannelEmulator.Proof.WordRestoration
import ChannelEmulator.Proof.ForneySyndromes
import ChannelEmulator.Proof.ErasureCorrection
import ChannelEmulator.Proof.WordEncoding
import ChannelEmulator.Proof.Interleaving
import ChannelEmulator.Proof.MessageCoding
import ChannelEmulator.Proof.WordOutcome
import ChannelEmulator.Proof.UnitCounters
import ChannelEmulator.Coding.BitString
import ChannelEmulator.Coding.OnesComplement
import ChannelEmulator.Coding.FullPeriod
import ChannelEmulator.Steps.StepFunction
import ChannelEmulator.Spec.PseudoRandomize
import ChannelEmulator.Spec.ControlWord
import ChannelEmulator.Spec.ExtensionValues
import ChannelEmulator.Spec.UdpDatagram
import ChannelEmulator.Spec.UdpWrapping
import ChannelEmulator.Spec.SymbolPacking
import ChannelEmulator.Spec.BitFields
import ChannelEmulator.Spec.BitPattern
import ChannelEmulator.Spec.TimeLine
import ChannelEmulator.Spec.EmulateRate
import ChannelEmulator.Spec.ScenarioTime
import ChannelEmulator.Spec.HttpRanges
import ChannelEmulator.Framing.FirstMatch
import ChannelEmulator.Spec.HttpRequest
import ChannelEmulator.Spec.IdleUnits
import ChannelEmulator.Spec.AutoLoad
import ChannelEmulator.Proof.PseudoRandomize
import ChannelEmulator.Proof.ControlWord
import ChannelEmulator.Proof.PppOptions
import ChannelEmulator.Proof.ExtensionValues
import ChannelEmulator.Proof.ExtensionParsing
import ChannelEmulator.Proof.UdpChecksum
import ChannelEmulator.Proof.UdpWrapping
import ChannelEmulator.Proof.SymbolPacking
import ChannelEmulator.Proof.BitFields
import ChannelEmulator.Proof.PatternBuffers
import ChannelEmulator.Proof.PseudoRandomPattern
import ChannelEmulator.Proof.TimeLine
import ChannelEmulator.Proof.EmulateRate
import ChannelEmulator.Proof.ScenarioTime
import ChannelEmulator.Proof.HttpRanges
import ChannelEmulator.Proof.RequestText
import ChannelEmulator.Proof.RequestChunks
import ChannelEmulator.Spec.Multipart
import ChannelEmulator.Proof.Multipart
import ChannelEmulator.Proof.IdleUnits
import ChannelEmulator.Proof.AutoLoad
import ChannelEmulator.Network.Pipeline
import ChannelEmulator.Spec.TrafficHandler
import ChannelEmulator.Proof.TrafficHandler
import ChannelEmulator.Spec.AosPacketService
import ChannelEmulator.Proof.AosPacketService
import ChannelEmulator.Spec.ErrorControl
import ChannelEmulator.Proof.ErrorControl
import ChannelEmulator.Spec.EmulateDelay
import ChannelEmulator.Proof.EmulateDelay
import ChannelEmulator.Network.Graph
import ChannelEmulator.Spec.TrafficNetwork
import ChannelEmulator.Proof.TrafficNetwork
import ChannelEmulator.Proof.TrafficLinks
import ChannelEmulator.Network.Weave
import ChannelEmulator.Proof.TrafficStreams
import ChannelEmulator.Spec.AosPhysicalLink
import ChannelEmulator.Proof.AosPhysicalLink
