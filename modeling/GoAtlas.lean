import GoAtlas.Atlas.Reader
import GoAtlas.Atlas.Writer
import GoAtlas.Config.Reader
import GoAtlas.Proofs.Atlas.Registry
import GoAtlas.Proofs.Session.Loaded
import GoAtlas.Proofs.TypeExpr.Reader
import GoAtlas.Proofs.Walk.Faithful
import GoAtlas.Session.Command
import GoAtlas.Session.Survey
import GoAtlas.Source.Frontend
import GoAtlas.Proofs.Walk.Onward
import GoAtlas.Proofs.Walk.Depth
import GoAtlas.Proofs.Walk.Unbounded
import GoAtlas.Proofs.Walk.Finished
import GoAtlas.Proofs.Walk.FirstWriter
import GoAtlas.Proofs.Session.Checks
import GoAtlas.Proofs.Session.ImportGraph
import GoAtlas.Proofs.Session.Cycle
import GoAtlas.Proofs.Session.Directory
import GoAtlas.Proofs.Session.Survey
import GoAtlas.Proofs.Check.Declared
import GoAtlas.Proofs.Session.Described
import GoAtlas.Proofs.Session.Comments
import GoAtlas.Proofs.Session.Documented
import GoAtlas.Proofs.Constraint.Legacy
import GoAtlas.Proofs.Atlas.Document
import GoAtlas.Proofs.Walk.Gathered
import GoAtlas.Proofs.Walk.Registered
import GoAtlas.Proofs.Source.TypeSyntax
import GoAtlas.Proofs.Session.Blame
import GoAtlas.Proofs.Check.Closed
import GoAtlas.Proofs.Walk.Supported
import GoAtlas.Proofs.Session.Linked
import GoAtlas.Proofs.Walk.Identity
import GoAtlas.Proofs.Check.FileOrder
import GoAtlas.Proofs.FilePath
import GoAtlas.Proofs.Session.Housed
import GoAtlas.Proofs.Session.CheckedFiles
import GoAtlas.Proofs.Walk.Congruence
import GoAtlas.Proofs.Session.Unbounded
import GoAtlas.Proofs.Session.Circular
import GoAtlas.Proofs.FileTree.Descent
import GoAtlas.Proofs.Locator.Children
import GoAtlas.Proofs.Session.Below
import GoAtlas.Proofs.Session.ImportEdges
import GoAtlas.Proofs.Source.CommentGroups
import GoAtlas.Proofs.Source.Layout
import GoAtlas.Proofs.Session.EarlierComments
import GoAtlas.Proofs.Source.Scanning
import GoAtlas.Proofs.Source.FuncSyntax
import GoAtlas.Proofs.Check.MethodSets
import GoAtlas.Proofs.Constraint.Header
import GoAtlas.Proofs.Locator.OrdinaryComments
import GoAtlas.Proofs.Source.Scans
import GoAtlas.Proofs.Source.Grammar
import GoAtlas.Proofs.Source.Lookahead
import GoAtlas.Proofs.Source.BodyLayout
import GoAtlas.Proofs.Source.GroupedParams
import GoAtlas.Proofs.Comment
import GoAtlas.Proofs.Walk.Repeated
import GoAtlas.Proofs.Locator.Relocated
import GoAtlas.Proofs.FilePath.Clean
