import PhpArray.Yaml.Document
import PhpArray.Literal.Scalar
import PhpArray.Files.Save
import PhpArray.Render
import PhpArray.Convert
import PhpArray.CommandLine.Command
import PhpArray.Main
import PhpArray.Proofs.Run
import PhpArray.Proofs.Content
import PhpArray.Proofs.Layout
import PhpArray.Proofs.Stepwise
import PhpArray.Proofs.Nesting
import PhpArray.Proofs.Inlining
import PhpArray.Proofs.Reader.Strings
import PhpArray.Proofs.Reader.Atoms
import PhpArray.Proofs.Double.Rounding
import PhpArray.Proofs.Double.Shortest
import PhpArray.Proofs.Reader.Doubles
import PhpArray.Proofs.Reader.Arrays
import PhpArray.Proofs.Reader.RoundTrip
import PhpArray.Proofs.IncludeChain
import PhpArray.Proofs.StartingChain
import PhpArray.Proofs.Sharing
import PhpArray.Proofs.Files
import PhpArray.Proofs.EntryPoints
import PhpArray.Proofs.LoadedDocuments
import PhpArray.Proofs.IncludeKeys
import PhpArray.Proofs.Failures
import PhpArray.Proofs.DocumentOrder
import PhpArray.Proofs.MergeKeys
import PhpArray.Proofs.Saving
import PhpArray.Proofs.Command
import PhpArray.Proofs.Reader.Keys
import PhpArray.Proofs.ArrayKeys
import PhpArray.Proofs.Quoting
import PhpArray.Proofs.Numerals
import PhpArray.Proofs.LineBreaks
import PhpArray.Proofs.Integers
import PhpArray.Proofs.NumberTexts
import PhpArray.Proofs.PlainScalars
import PhpArray.Proofs.WholeNumbers
import PhpArray.Proofs.ImplicitNumbers
