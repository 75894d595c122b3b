import Invokrum.Core.CompositionContract
import Invokrum.Integrity.LockfileCodec
import Invokrum.Integrity.Drift
import Invokrum.Integrity.DeclarationOrder
import Invokrum.Integrity.PackBinding
import Invokrum.Distribution.ManifestSize
import Invokrum.Distribution.Publisher
import Invokrum.Acquisition.FailureOrder
import Invokrum.Archive.UstarExact
import Invokrum.Schema.YamlSubset
import Invokrum.Install.Cleanup
import Invokrum.Install.Concurrent
import Invokrum.Install.Workflow
import Invokrum.Install.Exact
import Invokrum.Digest.Standard
import Invokrum.Archive.HandOff
import Invokrum.Rpc.Verifiable
import Invokrum.Schema.DeclaredMembers
import Invokrum.Schema.Normalize
import Invokrum.Schema.PackSchema
import Invokrum.Cli.LockDiff
import Invokrum.Distribution.PathGrammar
import Invokrum.Cli.HumanOutput
import Invokrum.Cli.RelativePaths
import Invokrum.Cli.OutputShared
import Invokrum.Directory.OnDisk
import Invokrum.Fs.NoLinks
import Invokrum.Install.Fresh
import Invokrum.Cli.CommandLine
import Invokrum.Delivery.Arguments
import Invokrum.Delivery.Binding
