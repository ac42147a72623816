import EntityQuery.CommandLine
import EntityQuery.Config.Document
import EntityQuery.Main
import EntityQuery.Operator.Table
import EntityQuery.Proofs.Expr.Recognition
import EntityQuery.Proofs.Expr.Typing
import EntityQuery.Proofs.Jpql.Faults
import EntityQuery.Proofs.Jpql.Grouping
import EntityQuery.Proofs.Jpql.StringContents
import EntityQuery.Proofs.Jpql.TestedNegation
import EntityQuery.Proofs.Jpql.TornQuotient
import EntityQuery.Proofs.Literal.Integers
import EntityQuery.Proofs.Statement.Aliases
import EntityQuery.Proofs.Statement.Direct
import EntityQuery.Proofs.Statement.KeyRestriction
import EntityQuery.Proofs.Token.ReadBack
import EntityQuery.Token.Stream
import EntityQuery.Proofs.Token.Layout
import EntityQuery.Proofs.Operator.Indexing
import EntityQuery.Proofs.Json.Documents
import EntityQuery.Proofs.Operator.Registration
import EntityQuery.Proofs.Request.WholeKeys
import EntityQuery.Proofs.Literal.Scanning
import EntityQuery.Proofs.Token.Respacing
import EntityQuery.Proofs.Expr.Extent
import EntityQuery.Proofs.Expr.Fragments
import EntityQuery.Proofs.Expr.ErrorPlaces
import EntityQuery.Proofs.Statement.JoinChain
import EntityQuery.Proofs.Expr.MemberPaths
import EntityQuery.Proofs.Expr.SortKeys
import EntityQuery.Proofs.Jpql.LexicalSafety
import EntityQuery.Proofs.Operator.Promotion
import EntityQuery.Proofs.Statement.Paging
import EntityQuery.Proofs.Calendar.DayNumber
import EntityQuery.Proofs.Calendar.OffsetText
import EntityQuery.Proofs.Calendar.Instants
import EntityQuery.Proofs.Token.ExactNumerals
import EntityQuery.Proofs.Number.Rounding
import EntityQuery.Proofs.Number.NumberTexts
import EntityQuery.Proofs.Calendar.Durations
import EntityQuery.Proofs.Jpql.Splices
