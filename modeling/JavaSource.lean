import JavaSource.Config.Settings
import JavaSource.Listing
import JavaSource.TypeRef.Draft
import JavaSource.Proofs.TypeRef.Writing
import JavaSource.Proofs.TypeRef.Spelling
import JavaSource.Proofs.TypeRef.Obtainable
import JavaSource.Proofs.CompilationUnit.Minimality
import JavaSource.Proofs.CompilationUnit.Completeness
import JavaSource.Proofs.CompilationUnit.History
import JavaSource.Proofs.CompilationUnit.WrittenAlike
import JavaSource.Proofs.CompilationUnit.OneLine
import JavaSource.Proofs.Text.Visible
import JavaSource.Proofs.CompilationUnit.EveryText
import JavaSource.Proofs.CompilationUnit.BlankLines
import JavaSource.Proofs.Output.Path
import JavaSource.Proofs.Output.SourceTree
import JavaSource.Proofs.Output.FileSystem
import JavaSource.Proofs.Output.Destinations
import JavaSource.Proofs.CompilationUnit.Placement
import JavaSource.Proofs.Output.Listings
import JavaSource.Proofs.Output.Batch
import JavaSource.Proofs.TypeRef.Display
import JavaSource.Proofs.TypeRef.Tables
import JavaSource.Proofs.TypeRef.Malformed
import JavaSource.Proofs.Config.Packages
import JavaSource.Proofs.TypeRef.SlotTexts
import JavaSource.Proofs.Layout.Emission
import JavaSource.Proofs.CompilationUnit.Substitution
import JavaSource.Proofs.Member.Placeholder
import JavaSource.Proofs.Text.Quoted
import JavaSource.Proofs.Annotation.Forms
import JavaSource.Proofs.Member.Body
import JavaSource.Proofs.TypeRef.Scanning
