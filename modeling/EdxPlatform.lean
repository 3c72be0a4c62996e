import EdxPlatform.Access.SplitTests
import EdxPlatform.BlockStructure.EditedGraphs
import EdxPlatform.BlockStructure.BlockCounts
import EdxPlatform.BlockStructure.MergedFields
import EdxPlatform.BlockStructure.Navigation
import EdxPlatform.BulkEmail.Accounting
import EdxPlatform.BulkEmail.Chunking
import EdxPlatform.BulkEmail.Conservation
import EdxPlatform.Calc.AuthorNames
import EdxPlatform.Calc.RoundTrip
import EdxPlatform.Capa.Attempts
import EdxPlatform.Capa.CheckResults
import EdxPlatform.Capa.ChoiceCredit
import EdxPlatform.Capa.ChoiceTextInputs
import EdxPlatform.Capa.CorrectMaps
import EdxPlatform.Capa.GraderReplies
import EdxPlatform.Capa.NumericalCredit
import EdxPlatform.Capa.Rescore
import EdxPlatform.Capa.ScriptVariables
import EdxPlatform.Capa.StringHints
import EdxPlatform.Ccx.GradedAssignments
import EdxPlatform.Ccx.KeyStripping
import EdxPlatform.Ccx.OverrideCache
import EdxPlatform.Ccx.SavedDates
import EdxPlatform.Chem.ZeroCounts
import EdxPlatform.Cohorts.Memberships
import EdxPlatform.Commerce.CouponPrices
import EdxPlatform.Commerce.Fulfilment
import EdxPlatform.Commerce.StatusAgreement
import EdxPlatform.ContentLinks.OnlyLinks
import EdxPlatform.Credit.Eligibility
import EdxPlatform.Credit.StatusCache
import EdxPlatform.DraftMongo.PublishedTrees
import EdxPlatform.DraftMongo.Reverting
import EdxPlatform.Enrollment.CourseDelete
import EdxPlatform.Enrollment.FullCourses
import EdxPlatform.Gating.RequiredContent
import EdxPlatform.Grades.LoweredGrades
import EdxPlatform.Grades.ModuleScores
import EdxPlatform.Grades.OptimalDrops
import EdxPlatform.Grades.ProgressSummary
import EdxPlatform.LibraryContent.CourseRequests
import EdxPlatform.SafeSessions.SafeCookies
import EdxPlatform.Split.ActiveIndexes
import EdxPlatform.Split.AssetPages
import EdxPlatform.Split.CloneRuns
import EdxPlatform.Split.CopyResults
import EdxPlatform.Split.DefinitionQueries
import EdxPlatform.Split.Deletion
import EdxPlatform.Split.DocumentRoundTrip
import EdxPlatform.Split.FieldVersions
import EdxPlatform.Split.Flush
import EdxPlatform.Split.InheritedFields
import EdxPlatform.Split.LazyFields
import EdxPlatform.Split.LoadedParents
import EdxPlatform.Split.LostUpdates
import EdxPlatform.Split.SubtreeRuns
import EdxPlatform.Split.TemplateCopies
import EdxPlatform.Split.Updates
import EdxPlatform.Split.VersionTrees
import EdxPlatform.UserState.FieldOverrides
import EdxPlatform.UserState.SavedFields
import EdxPlatform.Verifiers.PlacementOrder
import EdxPlatform.VerifyStudent.Attempts
import EdxPlatform.Student.LoginFailures
