import TinyLsm.Sequencing
import TinyLsm.Bytes
import TinyLsm.Crc32c
import TinyLsm.Decimal
import TinyLsm.Keys
import TinyLsm.Manifest.Apply
import TinyLsm.Manifest.Invariant
import TinyLsm.Manifest.Replay
import TinyLsm.Manifest.Codec
import TinyLsm.Manifest.File
import TinyLsm.Manifest.RoundTrip
import TinyLsm.Manifest.Failures
import TinyLsm.Manifest.Layout
import TinyLsm.Manifest.Atomicity
import TinyLsm.Manifest.Crash
import TinyLsm.Table.Revert
import TinyLsm.Engine.Model
import TinyLsm.Engine.Steps
import TinyLsm.Engine.Recency
import TinyLsm.Engine.Recovery
import TinyLsm.Engine.Durability
import TinyLsm.Engine.Session
import TinyLsm.Engine.Capacity
import TinyLsm.Engine.Retry
import TinyLsm.Engine.Stray
