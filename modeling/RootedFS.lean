import RootedFS.Path.Key
import RootedFS.Bytes
import RootedFS.OpenFlags
import RootedFS.Fault
import RootedFS.Memory.Basic
import RootedFS.Memory.Variant
import RootedFS.Host.Rooted
import RootedFS.FileSystem.Content
import RootedFS.Config
import RootedFS.Conformance.Suite
import RootedFS.Proofs.Memory.Consistent
import RootedFS.Proofs.Memory.Failure
import RootedFS.Proofs.Memory.Relocation
import RootedFS.Proofs.Memory.Lookup
import RootedFS.Proofs.Memory.Removal
import RootedFS.Proofs.Memory.Identity
import RootedFS.Proofs.Memory.Supply
import RootedFS.Proofs.Memory.TempFile
import RootedFS.Proofs.View.Confinement
import RootedFS.Proofs.View.Simulation
import RootedFS.Proofs.View.Separation
import RootedFS.Proofs.View.Stack
import RootedFS.Proofs.View.Listing
import RootedFS.Proofs.View.Removal
import RootedFS.Proofs.View.Links
import RootedFS.Proofs.View.ReadBack
import RootedFS.Proofs.Contents
import RootedFS.Proofs.Memory.Contents
import RootedFS.Proofs.Memory.ReadBack
import RootedFS.Proofs.Host.Plain
import RootedFS.Proofs.Host.Holds
import RootedFS.Proofs.Host.Entries
import RootedFS.Proofs.Host.Listing
import RootedFS.Proofs.Host.Contents
import RootedFS.Proofs.Host.ReadBack
import RootedFS.Proofs.Backends
import RootedFS.Proofs.Host.Inside
import RootedFS.Proofs.Host.Twins
import RootedFS.Proofs.Host.Twins.Calls
import RootedFS.Proofs.Host.Twins.Streams
import RootedFS.Proofs.Host.Confinement
import RootedFS.Proofs.Parallel
import RootedFS.Proofs.View.Beside
import RootedFS.Proofs.View.Abreast
import RootedFS.Proofs.View.Fresh
import RootedFS.Proofs.Conformance.Check
import RootedFS.Proofs.Conformance.Transfer
import RootedFS.Proofs.Conformance.TempFiles
import RootedFS.Proofs.Conformance.Suite
import RootedFS.Proofs.Host.Thinned
import RootedFS.Proofs.Host.Removal
import RootedFS.Proofs.Host.Target
import RootedFS.Proofs.View.Target
import RootedFS.Proofs.Memory.FreeName
import RootedFS.Proofs.Memory.Opening
import RootedFS.Proofs.Memory.Listing
import RootedFS.Proofs.Memory.Directories
import RootedFS.Proofs.Host.TempFile
import RootedFS.Proofs.View.TempFile
import RootedFS.Proofs.Host.Renaming
import RootedFS.Proofs.Memory.FailedUse
import RootedFS.Proofs.Memory.Appending
import RootedFS.Proofs.Path.Meaning
import RootedFS.Proofs.Path.Grouping
import RootedFS.Proofs.Path.Relative
import RootedFS.Proofs.Host.Mapping
