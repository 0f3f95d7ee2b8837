import StandaloneDrivers.Rt5572.BlockPool
import StandaloneDrivers.Rt5572.BssTableRuns
import StandaloneDrivers.Rt5572.BssTableSort
import StandaloneDrivers.Rt5572.Delivery
import StandaloneDrivers.Rt5572.Stalls
import StandaloneDrivers.Rt5572.FragmentAssembly
import StandaloneDrivers.Rt5572.MacTableRuns
import StandaloneDrivers.Rt5572.MlmeDelivery
import StandaloneDrivers.R92su.Authorisation
import StandaloneDrivers.R92su.IvAgreement
import StandaloneDrivers.R92su.Ownership
import StandaloneDrivers.R92su.PacketNumbers
import StandaloneDrivers.R92su.Registration
import StandaloneDrivers.R92su.ReorderDelivery
import StandaloneDrivers.R92su.DefragRoom
import StandaloneDrivers.R92su.LengthSafety
import StandaloneDrivers.R92su.TxFragment
import StandaloneDrivers.Rtl8188eu.ReorderDelivery
import StandaloneDrivers.Rtl8188eu.Reassembly
import StandaloneDrivers.Rtl8188eu.SwEncrypt
import StandaloneDrivers.Rtl8188eu.MicAgreement
import StandaloneDrivers.Rtl8188eu.RecvOwnership
import StandaloneDrivers.Rtl8188eu.PortControl
import StandaloneDrivers.Rtl8188eu.IntegrityGate
import StandaloneDrivers.Rtl8188eu.StaTableRuns
import StandaloneDrivers.Rtl8188eu.PowerSave
import StandaloneDrivers.Rtl8188eu.XmitAccounting
import StandaloneDrivers.Rtl8188eu.EfuseWalkers
import StandaloneDrivers.Rtl8188eu.EfuseRange
import StandaloneDrivers.Foundations.Buckets
import StandaloneDrivers.Foundations.Housing
import StandaloneDrivers.Rt5572.McastTableInsert
import StandaloneDrivers.Rtl8188eu.Nat25
import StandaloneDrivers.Rtl8188eu.Nat25Learning
import StandaloneDrivers.Rtl8188eu.Nat25Agreement
import StandaloneDrivers.R92su.Deduplicate
import StandaloneDrivers.R92su.Isolation
import StandaloneDrivers.R92su.BulkInDelivery
import StandaloneDrivers.R92su.Firmware
import StandaloneDrivers.R92su.Command
import StandaloneDrivers.R92su.InformationElements
import StandaloneDrivers.R92su.Eeprom
import StandaloneDrivers.R92su.TxOwnership
import StandaloneDrivers.Rt5572.UapsdPeriods
import StandaloneDrivers.Rt5572.CcmpAgreement
import StandaloneDrivers.Rtl8188eu.TkipUniqueness
import StandaloneDrivers.Rtl8188eu.TkipIcv
import StandaloneDrivers.Rtl8188eu.AesStandard
import StandaloneDrivers.Rtl8188eu.MichaelAgreement
import StandaloneDrivers.Rtl8188eu.CcmRoundTrip
import StandaloneDrivers.Rtl8188eu.AttributeRemoval
import StandaloneDrivers.Rtl8188eu.AmsduSubframes
import StandaloneDrivers.Rtl8188eu.PayloadLength
import StandaloneDrivers.Rt5572.CcmConformity
import StandaloneDrivers.Rt5572.CmacAgreement
import StandaloneDrivers.Rt5572.CbcPadding
import StandaloneDrivers.Rt5572.KeyWrapAgreement
import StandaloneDrivers.Rtl8188eu.ElementParser
import StandaloneDrivers.Rtl8188eu.SecurityElement
import StandaloneDrivers.Rtl8188eu.EfuseLimits
import StandaloneDrivers.Rt5572.BssCipher
import StandaloneDrivers.Rt5572.TkipMichael
import StandaloneDrivers.Rt5572.TkipMixing
import StandaloneDrivers.Foundations.ExchangeSort
import StandaloneDrivers.Rt5572.WpaSymmetry
import StandaloneDrivers.Rt5572.DecryptLengths
import StandaloneDrivers.Rt5572.EthernetHeader
import StandaloneDrivers.Rt5572.RalinkAggregation
import StandaloneDrivers.Rt5572.AmsduDeaggregation
import StandaloneDrivers.Rt5572.AmsduPackets
import StandaloneDrivers.Rt5572.BaFrames
import StandaloneDrivers.Rt5572.MembershipReports
import StandaloneDrivers.Rt5572.GroupRecords
import StandaloneDrivers.Rt5572.SpectrumElements
import StandaloneDrivers.Rt5572.BeaconLimits
import StandaloneDrivers.Rt5572.RsnElementCheck
import StandaloneDrivers.Rtl8188eu.OptionScans
import StandaloneDrivers.Rt5572.EapolKeyData
import StandaloneDrivers.Rt5572.DialogTableRuns
import StandaloneDrivers.Rtl8188eu.ChecksumRepair
import StandaloneDrivers.Rtl8188eu.PppoeRelay
import StandaloneDrivers.Rt5572.PktClone
import StandaloneDrivers.Rt5572.EfuseRequests
import StandaloneDrivers.Rt5572.HandshakeGroupKeys
