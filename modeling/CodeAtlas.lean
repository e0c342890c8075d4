import CodeAtlas.Elapsed
import CodeAtlas.Embedding.Offline
import CodeAtlas.Entity.Blob
import CodeAtlas.Entity.Source
import CodeAtlas.Files.Discovery
import CodeAtlas.Files.Filter
import CodeAtlas.Files.Walk
import CodeAtlas.Graph.Faulty
import CodeAtlas.Graph.Memory
import CodeAtlas.Graph.Session
import CodeAtlas.Graph.Trace
import CodeAtlas.Ingest.Run
import CodeAtlas.Json.Document
import CodeAtlas.Json.Text
import CodeAtlas.Main
import CodeAtlas.Syntax.Listing
import CodeAtlas.Proofs.Entity.Identity
import CodeAtlas.Proofs.Graph.Contents
import CodeAtlas.Proofs.Text.Order
import CodeAtlas.Proofs.Graph.Batch
import CodeAtlas.Proofs.Graph.Buffered
import CodeAtlas.Proofs.Ingest.Batches
import CodeAtlas.Proofs.Ingest.Committed
import CodeAtlas.Proofs.Graph.Containment
import CodeAtlas.Proofs.Graph.Read
import CodeAtlas.Proofs.Ingest.History
import CodeAtlas.Proofs.Graph.Replay
import CodeAtlas.Proofs.Ingest.Schedule
import CodeAtlas.Proofs.Graph.Versions
import CodeAtlas.Proofs.Graph.Interleaving
import CodeAtlas.Proofs.Ingest.Rerun
import CodeAtlas.Proofs.Graph.Hom
import CodeAtlas.Proofs.Graph.Journal
import CodeAtlas.Proofs.Ingest.Protocol
import CodeAtlas.Proofs.Graph.Change
import CodeAtlas.Proofs.Graph.Preview
import CodeAtlas.Proofs.Graph.Growth
import CodeAtlas.Proofs.Glob.Language
import CodeAtlas.Proofs.Ingest.Isolation
import CodeAtlas.Proofs.Files.Pruning
import CodeAtlas.Proofs.Ingest.Skipping
import CodeAtlas.Proofs.Ingest.Accounting
import CodeAtlas.Proofs.Syntax.Subtree
import CodeAtlas.Proofs.Syntax.Walk
import CodeAtlas.Proofs.Text.Excerpt
import CodeAtlas.Proofs.Entity.Extraction
import CodeAtlas.Proofs.Entity.Naming
import CodeAtlas.Proofs.Entity.Provenance
import CodeAtlas.Proofs.Text.Truncation
import CodeAtlas.Proofs.Entity.Blob
import CodeAtlas.Proofs.Number.Exact
import CodeAtlas.Proofs.Entity.Record
import CodeAtlas.Proofs.Graph.Retrieval
import CodeAtlas.Proofs.Files.Order
import CodeAtlas.Proofs.Entity.Quotation
import CodeAtlas.Proofs.Graph.Query
import CodeAtlas.Proofs.Bolt.Conversion
import CodeAtlas.Proofs.Embedding.Outcome
import CodeAtlas.Proofs.Number.Rounding
import CodeAtlas.Proofs.Embedding.Storable
import CodeAtlas.Proofs.Toml.Order
import CodeAtlas.Proofs.Config.Merge
import CodeAtlas.Proofs.Config.Setting
import CodeAtlas.Proofs.Config.Layers
import CodeAtlas.Proofs.Config.Literal
import CodeAtlas.Proofs.Ingest.Partition
import CodeAtlas.Proofs.Number.Nearest
import CodeAtlas.Proofs.Ingest.Causes
import CodeAtlas.Proofs.Embedding.Offline
