import UsdAsset.Cache.Accounting
import UsdAsset.Cache.BlockArithmetic
import UsdAsset.Cache.Digest
import UsdAsset.Cache.DiskBudget
import UsdAsset.Cache.DiskSoundness
import UsdAsset.Cache.GapCeiling
import UsdAsset.Cache.Planning
import UsdAsset.Cache.Remote
import UsdAsset.Cache.Stack
import UsdAsset.Cache.StoreRun
import UsdAsset.Cache.SweepLedger
import UsdAsset.Cache.Transparency
import UsdAsset.Cache.Unwinding
import UsdAsset.Http.Accounting
import UsdAsset.Http.AddressLiteral
import UsdAsset.Http.Budget
import UsdAsset.Http.Callbacks
import UsdAsset.Http.ContentRange
import UsdAsset.Http.Credentials
import UsdAsset.Http.Description
import UsdAsset.Http.Elision
import UsdAsset.Http.HandlePool
import UsdAsset.Http.HeaderLines
import UsdAsset.Http.Secrets
import UsdAsset.Http.UriStability
import UsdAsset.Io.LatencyHistogram
import UsdAsset.Local.Binding
import UsdAsset.Resolver.Agreement
import UsdAsset.Resolver.Anchoring
import UsdAsset.Resolver.ContextReports
import UsdAsset.Resolver.DotRule
import UsdAsset.Resolver.PercentMeaning
import UsdAsset.Resolver.Policies
import UsdAsset.Resolver.Precedence
