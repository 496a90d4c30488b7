import NestClient.Main
import NestClient.Proofs.Client.Url
import NestClient.Proofs.Disk.Resolve
import NestClient.Proofs.Generation.Determined
import NestClient.Proofs.Generation.Kept
import NestClient.Proofs.Disk.Scan
import NestClient.Proofs.Extract.Imports
import NestClient.Proofs.Client.Manifest
import NestClient.Proofs.Client.Hygiene
import NestClient.Proofs.Extract.Internal
import NestClient.Proofs.Extract.WellFormed
import NestClient.Proofs.Extract.ServerOnly
import NestClient.Proofs.Faults
import NestClient.Proofs.Generation.Exact
import NestClient.Proofs.TypeText.Preserved
import NestClient.Proofs.TypeText.Reader
import NestClient.Proofs.Client.ManifestPath
import NestClient.Proofs.Independence
import NestClient.Proofs.Route.Arithmetic
import NestClient.Proofs.Extract.RouteArgument
import NestClient.Proofs.TypeScript.RoundTrip
import NestClient.Proofs.TypeText.StringType
import NestClient.Proofs.Client.Comments
import NestClient.Proofs.Client.BaseImport
import NestClient.Proofs.Client.LegalMethod
import NestClient.Proofs.Extract.QualifiedType
import NestClient.Proofs.Extract.MemberDecorators
import NestClient.Proofs.Extract.UnknownDecorators
import NestClient.Proofs.Disk.Canonical
import NestClient.Proofs.Client.Quoting
import NestClient.Proofs.TypeText.Members
import NestClient.Proofs.TypeText.Settled
import NestClient.Proofs.Client.FileName
import NestClient.Proofs.Client.WholeSegments
import NestClient.Proofs.TypeText.Segmentation
import NestClient.Proofs.Route.Grouping
