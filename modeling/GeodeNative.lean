import GeodeNative.Proofs.Cache.Convergence
import GeodeNative.Proofs.Cache.DestroyTracking
import GeodeNative.Proofs.Cache.EvictionController
import GeodeNative.Proofs.Cache.HeapSize
import GeodeNative.Proofs.Cache.LRUBound
import GeodeNative.Proofs.Cache.LoadFactor
import GeodeNative.Proofs.Cache.Overflow
import GeodeNative.Proofs.Cache.Stamps
import GeodeNative.Proofs.Client.BucketLocations
import GeodeNative.Proofs.Client.FunctionRouting
import GeodeNative.Proofs.Client.PoolQueue
import GeodeNative.Proofs.Client.RedundancyLists
import GeodeNative.Proofs.Client.RequestRetries
import GeodeNative.Proofs.Events.PeriodicAck
import GeodeNative.Proofs.Events.EventIds
import GeodeNative.Proofs.Pdx.InstanceUpdate
import GeodeNative.Proofs.Pdx.RemoteReading
import GeodeNative.Proofs.Pdx.TypeRegistry
import GeodeNative.Proofs.Query.ClosedCqs
import GeodeNative.Proofs.Region.GetAll
import GeodeNative.Proofs.Region.InterestFailover
import GeodeNative.Proofs.Region.LocalPutAll
import GeodeNative.Proofs.Region.PutAll
import GeodeNative.Proofs.Region.RemoveAll
import GeodeNative.Proofs.Serialization.Bounds
import GeodeNative.Proofs.Serialization.CacheableString
import GeodeNative.Proofs.Serialization.Capacity
import GeodeNative.Proofs.Statistics.Archive
import GeodeNative.Proofs.Statistics.BytesWritten
import GeodeNative.Proofs.Statistics.HostStatSampler
import GeodeNative.Proofs.Statistics.TimeStamps
import GeodeNative.Proofs.Transactions.Ownership
