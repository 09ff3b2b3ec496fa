import Prodosfs.General.Call
import Prodosfs.General.Alike
import Prodosfs.General.Units
import Prodosfs.General.RepeatedKey
import Prodosfs.General.Linked
import Prodosfs.General.NameTree
import Prodosfs.General.Threads
import Prodosfs.General.Stores
import Prodosfs.General.Refinement
import Prodosfs.General.Getopt
import Prodosfs.General.Screen
import Prodosfs.General.Lockstep
import Prodosfs.General.Legible
import Prodosfs.Image
import Prodosfs.Disk
import Prodosfs.Opening
import Prodosfs.Probes
import Prodosfs.Names
import Prodosfs.Layouts
import Prodosfs.Normalize
import Prodosfs.Scratch
import Prodosfs.Entry
import Prodosfs.Directory
import Prodosfs.Listing
import Prodosfs.Slots
import Prodosfs.Lookup
import Prodosfs.Paths
import Prodosfs.File
import Prodosfs.Content
import Prodosfs.Texts
import Prodosfs.Catalog
import Prodosfs.Lines
import Prodosfs.Cycles
import Prodosfs.Bitmap
import Prodosfs.Mount
import Prodosfs.Listxattr
import Prodosfs.MountDirectory
import Prodosfs.Reading
import Prodosfs.Interleaving
import Prodosfs.Exported
import Prodosfs.Rewind
import Prodosfs.Handlers
import Prodosfs.Attributes
import Prodosfs.Ends
import Prodosfs.Failures
import Prodosfs.Errors
import Prodosfs.VirtualFiles
import Prodosfs.Titles
import Prodosfs.Server
import Prodosfs.Service
import Prodosfs.Serving
import Prodosfs.Client
import Prodosfs.Browsing
import Prodosfs.Ledger
import Prodosfs.Faults
import Prodosfs.History
import Prodosfs.CommandLine
import Prodosfs.Startup
import Prodosfs.Apart
import Prodosfs.Renaming
import Prodosfs.DiskUtil
import Prodosfs.Password
import Prodosfs.Perl
import Prodosfs.MultiScribe
import Prodosfs.AppleWorks
import Prodosfs.Documents
import Prodosfs.Styles
import Prodosfs.Appearance
