import DDSRouter.Lib.OrdMap
import DDSRouter.TrackForwarding
import DDSRouter.BridgeWriters
import DDSRouter.PayloadPool
import DDSRouter.RouterServices
import DDSRouter.RouterReload
import DDSRouter.RouterBuiltin
import DDSRouter.BridgeCreation
import DDSRouter.SpecificQos
import DDSRouter.ServerBookkeeping
import DDSRouter.RPCServers
import DDSRouter.RPCTasks
import DDSRouter.WriterNumbers
import DDSRouter.Repeater
import DDSRouter.FastPayloadPool
import DDSRouter.MapPayloadPool
import DDSRouter.TrackPayloads
import DDSRouter.ServiceTopics
import DDSRouter.ServiceBridges
import DDSRouter.EndpointUpdates
import DDSRouter.LocatorTransports
import DDSRouter.ListeningTransports
import DDSRouter.TlsTransports
import DDSRouter.RPCPayloads
import DDSRouter.Noexcept
import DDSRouter.YamlVersions
import DDSRouter.WriterHistory
import DDSRouter.MultiWriters
import DDSRouter.ServiceRegistries
import DDSRouter.AddressSets
import DDSRouter.FilterSets
import DDSRouter.FilterReduction
import DDSRouter.ConfigurationValidity
import DDSRouter.RPCParticipants
import DDSRouter.RPCLookups
import DDSRouter.CopyPayloadPool
import DDSRouter.BuiltinBridges
import DDSRouter.HistoryDefaults
import DDSRouter.FirstTopics
import DDSRouter.RouterDelivery
import DDSRouter.RouterParticipants
import DDSRouter.EndpointLifecycle
import DDSRouter.ArgumentSettings
import DDSRouter.ParticipantDiscovery
import DDSRouter.RouterDiscovery
import DDSRouter.EndpointQos
